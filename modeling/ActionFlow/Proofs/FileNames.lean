import ActionFlow.Directory
import ActionFlow.Proofs.Emission

/-!
# Which file a path names

Different paths can name the same file, and a path can name a file that is not there yet. Here a
path is taken to the location that it names. Writing to a path puts a file into a folder that is
there, so it makes no folder and leaves all other paths where they led: the location that a path
names does not depend on the files that have been written before.

Files are written beside others, under a name with another extension. A name with that extension
stays as it is, so a file that is written in place of another file is the target of that file too.

## Main statements

- `Path.withExtension_eq_self`: a path whose name has the extension already is left alone.
- `Directory.fileAt?`: the location that a path names.
- `Directory.read_eq_ok_iff`, `Directory.toOption_write`: reading and writing by location.
- `Directory.SameFolders.fileAt?_eq`, `Directory.sameFolders_put`: what a path names depends on the
  folders alone, and writing a file keeps them.
- `Directory.withExtension_of_sameFile`: a file that a target names is its own target.
-/

namespace ActionFlow

/-! ## §1 The last component of a path -/

namespace Path

/-- The characters of a path, cut behind its last separator. -/
structure Cut (path before name : List Char) : Prop where
  path_eq : path = before ++ name
  leading : before = [] ∨ ∃ xs, before = xs ++ ['/']
  plain : '/' ∉ name

/-- The last component of a path names something. -/
structure Naming (name : List Char) : Prop where
  nonempty : name ≠ []
  not_here : name ≠ ['.']
  not_around : name ≠ ['.', '.']

theorem pieceChars_ne_nil (cs : List Char) : pieceChars cs ≠ [] := by
  fun_cases pieceChars cs <;> simp

theorem pieceChars_append (xs ys : List Char) :
    pieceChars (xs ++ '/' :: ys) = pieceChars xs ++ pieceChars ys := by
  induction xs with
  | nil => simp [pieceChars]
  | cons c xs ih =>
    rw [List.cons_append, pieceChars, pieceChars, ih]
    split
    · rfl
    · obtain ⟨p, ps, pieces_eq⟩ := List.exists_cons_of_ne_nil (pieceChars_ne_nil xs)
      rw [pieces_eq]
      rfl

theorem pieceChars_of_plain {cs : List Char} (plain : '/' ∉ cs) : pieceChars cs = [cs] := by
  induction cs with
  | nil => rfl
  | cons c cs ih =>
    rw [List.mem_cons, not_or] at plain
    rw [pieceChars, if_neg (Ne.symm plain.1), ih plain.2]

namespace Cut

variable {path before name : List Char}

theorem getLast?_pieceChars (cut : Cut path before name) :
    (pieceChars path).getLast? = some name := by
  obtain ⟨rfl, rfl | ⟨xs, rfl⟩, plain⟩ := cut
  · rw [List.nil_append, pieceChars_of_plain plain, List.getLast?_singleton]
  · rw [List.append_assoc, List.singleton_append, pieceChars_append, pieceChars_of_plain plain,
      List.getLast?_concat]

/-- There is one way to cut a path. -/
theorem unique {before' name' : List Char} (cut : Cut path before name)
    (cut' : Cut path before' name') : before = before' ∧ name = name' := by
  have same : name = name' :=
    Option.some.inj (cut.getLast?_pieceChars.symm.trans cut'.getLast?_pieceChars)
  have both := cut.path_eq.symm.trans cut'.path_eq
  rw [same] at both
  exact ⟨List.append_cancel_right both, same⟩

/-- A reversed path is cut at its first separator. -/
theorem of_reverse (reversed : List Char) :
    Cut reversed.reverse (reversed.dropWhile (· != '/')).reverse
      (reversed.takeWhile (· != '/')).reverse where
  path_eq := by rw [← List.reverse_append, List.takeWhile_append_dropWhile]
  leading := by
    have first := List.head?_dropWhile_not (· != '/') reversed
    cases rest_eq : reversed.dropWhile (· != '/') with
    | nil => exact .inl rfl
    | cons c cs =>
      obtain rfl : c = '/' := by simpa [rest_eq] using first
      exact .inr ⟨cs.reverse, List.reverse_cons⟩
  plain := by
    intro mem
    have := List.all_eq_true.mp List.all_takeWhile '/' (List.mem_reverse.mp mem)
    simp at this

/-- Where the last component names something, there is nothing to drop behind it. -/
theorem dropClosing_reverse (cut : Cut path before name) (naming : Naming name) :
    dropClosing path.reverse = path.reverse := by
  obtain ⟨rfl, -, plain⟩ := cut
  rw [List.reverse_append]
  have plain' : '/' ∉ name.reverse := by rwa [List.mem_reverse]
  match name_eq : name.reverse with
  | [] => exact absurd (List.reverse_eq_nil_iff.mp name_eq) naming.nonempty
  | [c] =>
    rw [name_eq, List.mem_singleton] at plain'
    have here : c ≠ '.' := by
      rintro rfl
      exact naming.not_here (by simpa using congrArg List.reverse name_eq)
    unfold dropClosing
    split <;> simp_all
  | c :: c' :: cs =>
    rw [name_eq] at plain'
    simp only [List.mem_cons, not_or] at plain'
    unfold dropClosing
    split <;> simp_all

end Cut

theorem split?_eq_some {path : String} {before name : List Char}
    (cut : Cut path.toList before name) (naming : Naming name) :
    split? path = some (String.ofList before, String.ofList name) := by
  have cut' := Cut.of_reverse path.toList.reverse
  rw [List.reverse_reverse] at cut'
  obtain ⟨before_eq, name_eq⟩ := cut'.unique cut
  rw [split?, cut.dropClosing_reverse naming]
  simp only [before_eq, name_eq]
  -- The three texts that name nothing, as characters.
  have spelled : ∀ cs : List Char, String.ofList name = String.ofList cs → name = cs :=
    fun cs same => String.ofList_inj.mp same
  rw [if_neg]
  rintro (empty | here | around)
  · exact naming.nonempty (spelled [] empty)
  · exact naming.not_here (spelled ['.'] here)
  · exact naming.not_around (spelled ['.', '.'] around)

/-- What a path is split into: the name can be replaced by another one. -/
theorem cut_of_split? {path before name : String} (split : split? path = some (before, name)) :
    '/' ∉ name.toList ∧ name ≠ "" ∧ ∀ other : String, '/' ∉ other.toList →
      Cut (before ++ other).toList before.toList other.toList := by
  unfold split? at split
  have cut := Cut.of_reverse (dropClosing path.toList.reverse)
  dsimp only at split
  split at split
  · cases split
  · next named =>
    obtain ⟨rfl, rfl⟩ := Prod.mk.inj (Option.some.inj split)
    refine ⟨?_, ?_, fun other plain => ⟨String.toList_append, ?_, plain⟩⟩
    · rw [String.toList_ofList]
      exact cut.plain
    · exact fun empty => named (.inl empty)
    · rw [String.toList_ofList]
      exact cut.leading

/-- A stem is the start of the name, and not empty. -/
theorem exists_stem_append (name : String) : ∃ rest, name.toList = (stem name).toList ++ rest := by
  unfold stem
  split
  · next c cs rest_eq =>
    refine ⟨'.' :: (name.toList.reverse.takeWhile (· != '.')).reverse, ?_⟩
    have whole := List.takeWhile_append_dropWhile (p := (· != '.')) (l := name.toList.reverse)
    rw [rest_eq] at whole
    simpa [String.toList_ofList] using congrArg List.reverse whole.symm
  · exact ⟨[], (List.append_nil _).symm⟩

theorem stem_ne_empty {name : String} (nonempty : name ≠ "") : stem name ≠ "" := by
  unfold stem
  split
  · rw [Ne, String.ofList_eq_empty_iff]
    simp
  · exact nonempty

theorem stem_append {s extension : String} (nonempty : s ≠ "") (plain : '.' ∉ extension.toList) :
    stem (s ++ "." ++ extension) = s := by
  have reversed : (s ++ "." ++ extension).toList.reverse
      = extension.toList.reverse ++ '.' :: s.toList.reverse := by
    simp [String.toList_append]
  have no_dot : ∀ c ∈ extension.toList.reverse, (c != '.') = true := by
    intro c mem
    rw [bne_iff_ne]
    rintro rfl
    exact plain (List.mem_reverse.mp mem)
  have rest_eq : (s ++ "." ++ extension).toList.reverse.dropWhile (· != '.')
      = '.' :: s.toList.reverse := by
    rw [reversed, List.dropWhile_append_of_pos no_dot]
    simp
  unfold stem
  rw [rest_eq]
  cases chars_eq : s.toList.reverse with
  | nil => exact absurd (String.toList_eq_nil_iff.mp (List.reverse_eq_nil_iff.mp chars_eq)) nonempty
  | cons c cs =>
    change String.ofList (c :: cs).reverse = s
    rw [← chars_eq, List.reverse_reverse, String.ofList_toList]

/-- The last component of a path with a new extension has that extension, if it names something. -/
theorem exists_stem_of_cut {extension path : String} (plain : '/' ∉ extension.toList)
    {before name : List Char} (cut : Cut (withExtension extension path).toList before name)
    (naming : Naming name) :
    ∃ s : String, s ≠ "" ∧ s ≠ "." ∧ name = (s ++ "." ++ extension).toList := by
  unfold withExtension at cut
  cases split : split? path with
  | none =>
    -- A path without a name is left alone, but this one has a name.
    rw [split] at cut
    rw [split?_eq_some cut naming] at split
    cases split
  | some parts =>
    obtain ⟨front, old⟩ := parts
    obtain ⟨old_plain, nonempty, cut_of⟩ := cut_of_split? split
    simp only [split] at cut
    split at cut
    · exact absurd (cut.unique (cut_of ".." (by decide))).2 naming.not_around
    · next ordinary =>
      obtain ⟨rest, old_eq⟩ := exists_stem_append old
      have new_plain : '/' ∉ (stem old ++ "." ++ extension).toList := by
        rw [old_eq, List.mem_append, not_or] at old_plain
        simp [String.toList_append, old_plain.1, plain]
      have joined : front ++ stem old ++ "." ++ extension
          = front ++ (stem old ++ "." ++ extension) := by
        simp only [String.append_assoc]
      rw [joined] at cut
      exact ⟨stem old, stem_ne_empty nonempty, ordinary, (cut.unique (cut_of _ new_plain)).2⟩

theorem naming_append {s extension : String} (nonempty : s ≠ "") (ordinary : s ≠ ".") :
    Naming (s ++ "." ++ extension).toList := by
  have chars_eq : (s ++ "." ++ extension).toList = s.toList ++ '.' :: extension.toList := by
    simp [String.toList_append]
  have nonempty' : s.toList ≠ [] := fun empty => nonempty (String.toList_eq_nil_iff.mp empty)
  rw [chars_eq]
  constructor
  · simp
  · intro here
    rcases List.append_eq_singleton_iff.mp here with ⟨empty, -⟩ | ⟨-, absent⟩
    · exact nonempty' empty
    · cases absent
  · intro around
    match stem_eq : s.toList with
    | [] => exact nonempty' stem_eq
    | [c] =>
      rw [stem_eq] at around
      obtain rfl : c = '.' := by simp_all
      exact ordinary (String.toList_inj.mp stem_eq)
    | c :: c' :: cs => simp [stem_eq] at around

/-- A path is left alone if its last component has the extension already. -/
theorem withExtension_eq_self {extension path s : String} (undotted : '.' ∉ extension.toList)
    {before : List Char} (cut : Cut path.toList before (s ++ "." ++ extension).toList)
    (nonempty : s ≠ "") (ordinary : s ≠ ".") : withExtension extension path = path := by
  rw [withExtension, split?_eq_some cut (naming_append nonempty ordinary), String.ofList_toList]
  dsimp only
  rw [stem_append nonempty undotted, if_neg ordinary]
  apply String.toList_inj.mp
  rw [cut.path_eq]
  simp [String.toList_append, String.toList_ofList]

end Path

/-! ## §2 The location that a path names -/

namespace Place

/-- The location of a file, whether it is there or not. -/
def file? : Place → Option Location
  | file l => some l
  | folder _ => none
  | vacant l => some l

/-- A place without regard to whether its file is there. -/
def outline : Place → Place
  | vacant l => file l
  | p => p

theorem file?_outline (p : Place) : p.outline.file? = p.file? := by
  cases p <;> rfl

end Place

namespace Directory

variable {d d' : Directory} {path : String} {l : Location}

/-- The location of the file that a path names, whether it is there or not. -/
def fileAt? (d : Directory) (path : String) : Option Location :=
  (d.locate path).toOption.bind Place.file?

/-- Two paths name the same file. -/
def SameFile (d : Directory) (path path' : String) : Prop :=
  ∃ l, d.fileAt? path = some l ∧ d.fileAt? path' = some l

/-- Whether a path can lead on from a location. -/
def holdsFolder (d : Directory) (l : Location) : Bool := (d.content? l).isNone && d.hasFolder l

theorem outline_place (d : Directory) (l : Location) :
    (d.place l).outline = if d.holdsFolder l then .folder l else .file l := by
  unfold place holdsFolder
  cases d.content? l with
  | some bytes => rfl
  | none => cases d.hasFolder l <;> rfl

theorem file?_place (d : Directory) (l : Location) :
    (d.place l).file? = if d.holdsFolder l then none else some l := by
  rw [← Place.file?_outline, outline_place]
  split <;> rfl

theorem place_eq_file_iff : d.place l = .file l ↔ (d.content? l).isSome = true := by
  unfold place
  cases d.content? l with
  | some bytes => simp
  | none =>
    dsimp only
    split <;> simp

/-- A file is reached by a last component that names something, from a folder. -/
theorem step_eq_file {here p : Place} {piece : String} (stepped : d.step here piece = .ok p)
    (named : p.file? = some l) :
    piece ≠ "" ∧ piece ≠ "." ∧ piece ≠ ".." ∧ ∃ k, here = .folder k ∧ l = k ++ [piece]
      ∧ p = d.place l ∧ d.holdsFolder l = false := by
  cases here with
  | file k => cases stepped
  | vacant k => cases stepped
  | folder k =>
    rw [step] at stepped
    split at stepped
    · -- Components that say nothing stay in the folder.
      obtain rfl := Except.ok.inj stepped
      cases named
    · next other =>
      rw [not_or] at other
      split at stepped
      · obtain rfl := Except.ok.inj stepped
        cases named
      · next inside =>
        split at stepped
        · cases stepped
        · obtain rfl := Except.ok.inj stepped
          rw [file?_place] at named
          split at named
          · cases named
          · next free =>
            obtain rfl := Option.some.inj named
            exact ⟨other.1, other.2, inside, k, rfl, rfl, rfl, Bool.eq_false_iff.mpr free⟩

/-! ### Folders on the way -/

theorem isOuter_of_inside {k : Location} (inside : k <+: l) (outer : isOuter l = true) :
    isOuter k = true := by
  simp only [isOuter, Bool.or_eq_true, List.all_eq_true, beq_iff_eq] at outer ⊢
  rcases outer with dots | rfl
  · exact .inl fun piece mem => dots piece (inside.mem mem)
  · rcases k with _ | ⟨piece, rest⟩
    · exact .inl (by simp)
    · obtain ⟨rfl, shorter⟩ := List.cons_prefix_cons.mp inside
      rw [List.prefix_nil.mp shorter]
      exact .inr rfl

/-- A folder is there because it is outside, or because a file lies below it. -/
theorem hasFolder_iff : d.hasFolder l = true ↔ isOuter l = true
    ∨ ∃ k, (d.content? k).isSome = true ∧ l <+: k ∧ l.length < k.length := by
  simp only [hasFolder, Bool.or_eq_true, List.any_eq_true, Bool.and_eq_true,
    List.isPrefixOf_iff_prefix, decide_eq_true_eq, content?, List.lookup_isSome_iff, beq_iff_eq]
  constructor
  · rintro (outer | ⟨f, mem, below⟩)
    · exact .inl outer
    · exact .inr ⟨f.1, ⟨f, mem, rfl⟩, below⟩
  · rintro (outer | ⟨k, ⟨f, mem, rfl⟩, below⟩)
    · exact .inl outer
    · exact .inr ⟨f, mem, below⟩

/-- The folders around a folder are there. -/
theorem hasFolder_of_inside {k : Location} (inside : k <+: l) (there : d.hasFolder l = true) :
    d.hasFolder k = true := by
  rw [hasFolder_iff] at there ⊢
  rcases there with outer | ⟨m, held, below, shorter⟩
  · exact .inl (isOuter_of_inside inside outer)
  · exact .inr ⟨m, held, inside.trans below, Nat.lt_of_le_of_lt inside.length_le shorter⟩

theorem hasFolder_around (there : d.hasFolder l = true) : d.hasFolder (around l) = true := by
  unfold around
  split
  · exact there
  · split
    · next dots =>
      rw [hasFolder_iff]
      exact .inl (by simp [isOuter, dots])
    · exact hasFolder_of_inside (List.dropLast_prefix l) there

/-- If a place is a folder, the folder is there. -/
def Sound (d : Directory) (p : Place) : Prop := ∀ k, p = .folder k → d.hasFolder k = true

theorem sound_step {here p : Place} {piece : String} (sound : d.Sound here)
    (stepped : d.step here piece = .ok p) : d.Sound p := by
  rintro k rfl
  cases here with
  | file l => cases stepped
  | vacant l => cases stepped
  | folder l =>
    have there := sound l rfl
    rw [step] at stepped
    split at stepped
    · cases stepped
      exact there
    · split at stepped
      · cases stepped
        exact hasFolder_around there
      · split at stepped
        · cases stepped
        · have outline_eq := outline_place d (l ++ [piece])
          rw [Except.ok.inj stepped] at outline_eq
          split at outline_eq
          · next held =>
            cases outline_eq
            exact (Bool.and_eq_true _ _ ▸ held).2
          · cases outline_eq

theorem sound_foldlM {start p : Place} {pieces : List String} (sound : d.Sound start)
    (reached : pieces.foldlM d.step start = .ok p) : d.Sound p := by
  induction pieces generalizing start with
  | nil =>
    obtain rfl : start = p := Except.ok.inj reached
    exact sound
  | cons piece pieces ih =>
    rw [List.foldlM_cons] at reached
    obtain ⟨here, stepped, reached⟩ := bind_eq_ok_iff.mp reached
    exact ih (sound_step sound stepped) reached

/-- The way to a file: its last component names something in a folder that is there. -/
structure WayTo (d : Directory) (pieces : List String) (l : Location) : Prop where
  exists_last : ∃ k piece, pieces.getLast? = some piece ∧ l = k ++ [piece]
    ∧ d.hasFolder k = true ∧ piece ≠ "" ∧ piece ≠ "." ∧ piece ≠ ".."
  follow_eq : d.follow pieces = .ok (d.place l)
  free : d.holdsFolder l = false

theorem exists_last_of_foldlM {start : Location} {pieces : List String} {p : Place}
    (there : d.hasFolder start = true)
    (reached : pieces.foldlM d.step (.folder start) = .ok p) (named : p.file? = some l) :
    (∃ k piece, pieces.getLast? = some piece ∧ l = k ++ [piece] ∧ d.hasFolder k = true
      ∧ piece ≠ "" ∧ piece ≠ "." ∧ piece ≠ "..") ∧ p = d.place l ∧ d.holdsFolder l = false := by
  rcases List.eq_nil_or_concat pieces with rfl | ⟨front, piece, pieces_eq⟩
  · cases reached
    cases named
  · rw [List.concat_eq_append] at pieces_eq
    rw [pieces_eq, List.foldlM_append] at reached
    obtain ⟨here, before, reached⟩ := bind_eq_ok_iff.mp reached
    rw [List.foldlM_cons] at reached
    obtain ⟨last, stepped, reached⟩ := bind_eq_ok_iff.mp reached
    obtain rfl : last = p := Except.ok.inj reached
    obtain ⟨nonempty, not_here, not_around, k, rfl, l_eq, p_eq, free⟩ := step_eq_file stepped named
    have sound : d.Sound (.folder start) := fun k same => Place.folder.inj same ▸ there
    refine ⟨⟨k, piece, ?_, l_eq, sound_foldlM sound before k rfl, nonempty, not_here, not_around⟩,
      p_eq, free⟩
    rw [pieces_eq, List.getLast?_concat]

theorem wayTo_of_follow {pieces : List String} {p : Place} (followed : d.follow pieces = .ok p)
    (named : p.file? = some l) : d.WayTo pieces l := by
  -- A path starts from the folder itself or from the root, and both are outside.
  have there : d.hasFolder (if pieces.head? = some "" then ["/"] else []) = true := by
    split <;> rfl
  obtain ⟨last, rfl, free⟩ := exists_last_of_foldlM there followed named
  exact ⟨last, followed, free⟩

theorem wayTo_of_fileAt? (named : d.fileAt? path = some l) :
    d.WayTo (Path.pieces path) l ∧ d.locate path = .ok (d.place l) := by
  rw [fileAt?, Option.bind_eq_some_iff] at named
  obtain ⟨p, located, named⟩ := named
  have located : d.locate path = .ok p := by
    cases found : d.locate path with
    | error e => simp [found, Except.toOption] at located
    | ok q => simpa [found, Except.toOption] using located
  have followed : d.follow (Path.pieces path) = .ok p := by
    rw [locate] at located
    split at located
    · cases located
    · split at located
      · cases located
      · exact located
  have way := wayTo_of_follow followed named
  exact ⟨way, located.trans (followed.symm.trans way.follow_eq)⟩

/-! ## §3 Reading and writing -/

/-- Reading a path gives what the file that it names holds. -/
theorem read_eq_ok_iff {bytes : Bytes} :
    d.read path = .ok bytes ↔ ∃ l, d.fileAt? path = some l ∧ d.content? l = some bytes := by
  constructor
  · intro found
    rw [read] at found
    split at found
    · cases found
    · cases found
    · cases found
    · next l located =>
      have named : d.fileAt? path = some l := by
        rw [fileAt?, located]
        rfl
      have present : (d.content? l).isSome = true :=
        place_eq_file_iff.mp (Except.ok.inj ((wayTo_of_fileAt? named).2.symm.trans located))
      obtain ⟨held, held_eq⟩ := Option.isSome_iff_exists.mp present
      rw [held_eq] at found
      exact ⟨l, named, held_eq.trans (congrArg some (Except.ok.inj found))⟩
  · rintro ⟨l, named, held⟩
    have located := (wayTo_of_fileAt? named).2
    rw [place_eq_file_iff.mpr (by rw [held]; rfl)] at located
    rw [read, located]
    simp [held]

theorem toOption_read (d : Directory) (path : String) :
    (d.read path).toOption = (d.fileAt? path).bind d.content? := by
  cases found : d.read path with
  | ok bytes =>
    obtain ⟨l, named, held⟩ := read_eq_ok_iff.mp found
    rw [named]
    exact held.symm
  | error e =>
    -- What a named file holds would have been read.
    symm
    rw [Except.toOption, Option.eq_none_iff_forall_ne_some]
    intro bytes held
    obtain ⟨l, named, held⟩ := Option.bind_eq_some_iff.mp held
    rw [read_eq_ok_iff.mpr ⟨l, named, held⟩] at found
    cases found

/-- A path that ends with nothing, or with the folder itself, names no file. -/
theorem file?_follow_eq_none {pieces : List String} {piece : String}
    (last : pieces.getLast? = some piece) (idle : piece = "" ∨ piece = ".") :
    (d.follow pieces).toOption.bind Place.file? = none := by
  cases followed : d.follow pieces with
  | error e => rfl
  | ok p =>
    rw [Option.eq_none_iff_forall_ne_some]
    intro l named
    obtain ⟨k, piece', last', -, -, nonempty, not_here, -⟩ :=
      (wayTo_of_follow followed named).exists_last
    obtain rfl : piece = piece' := Option.some.inj (last.symm.trans last')
    exact idle.elim nonempty not_here

/-- Without its closing empty components a list is shorter, or has none. -/
theorem getLast?_of_closing {pieces : List String}
    (closing : (pieces.reverse.dropWhile (· == "")).reverse.length < pieces.length) :
    pieces.getLast? = some "" := by
  rw [← List.head?_reverse]
  cases reversed : pieces.reverse with
  | nil => simp [List.reverse_eq_nil_iff.mp reversed] at closing
  | cons piece rest =>
    by_cases empty : piece = ""
    · rw [empty, List.head?_cons]
    · rw [reversed, List.dropWhile_cons_of_neg (by simpa using empty), ← reversed,
        List.reverse_reverse] at closing
      exact absurd closing (Nat.lt_irrefl _)

theorem reverse_dropWhile_of_not_closing {pieces : List String}
    (open_ended : ¬ (pieces.reverse.dropWhile (· == "")).reverse.length < pieces.length) :
    (pieces.reverse.dropWhile (· == "")).reverse = pieces := by
  have suffix := List.dropWhile_suffix (l := pieces.reverse) (· == "")
  have length_eq : (pieces.reverse.dropWhile (· == "")).length = pieces.reverse.length := by
    have := suffix.length_le
    simp only [List.length_reverse] at open_ended this ⊢
    omega
  rw [suffix.eq_of_length length_eq, List.reverse_reverse]

/-- Where closing empty components are replaced by one that stands for the folder, a path names no
    file, and neither does it as it was. -/
theorem file?_follow_named (d : Directory) (pieces : List String) :
    let named := (pieces.reverse.dropWhile (· == "")).reverse
    let followed := if named.length < pieces.length then named.dropLast ++ ["."] else named
    (d.follow followed).toOption.bind Place.file?
      = (d.follow pieces).toOption.bind Place.file? := by
  intro named followed
  simp only [followed]
  split
  · next closing =>
    rw [file?_follow_eq_none (getLast?_of_closing closing) (.inl rfl)]
    exact file?_follow_eq_none List.getLast?_concat (.inr rfl)
  · next open_ended =>
    have named_eq : named = pieces := reverse_dropWhile_of_not_closing open_ended
    rw [named_eq]

/-- A path is written to the file that it names, if it names one. -/
theorem toOption_target (d : Directory) (path : String) :
    (d.target path).toOption = d.fileAt? path := by
  rw [target, fileAt?, locate]
  split
  · rfl
  · split
    · rfl
    · rw [← file?_follow_named]
      dsimp only
      split
      all_goals
        next followed =>
          rw [followed]
          rfl

theorem toOption_write (d : Directory) (path : String) (bytes : Bytes) :
    (d.write path bytes).toOption = (d.fileAt? path).map (d.put · bytes) := by
  rw [← toOption_target, write]
  cases d.target path <;> rfl

/-! ## §4 What writing leaves alone -/

/-- Paths can lead on from the same locations. -/
def SameFolders (d d' : Directory) : Prop := ∀ l, d.holdsFolder l = d'.holdsFolder l

namespace SameFolders

theorem outline_step (same : d.SameFolders d') {p p' : Place} (alike : p.outline = p'.outline)
    (piece : String) :
    (d.step p piece).toOption.map Place.outline
      = (d'.step p' piece).toOption.map Place.outline := by
  cases p with
  | folder l =>
    obtain rfl : p' = .folder l := by
      cases p' <;> simp_all [Place.outline]
    simp only [step]
    split
    · rfl
    · split
      · rfl
      · split
        · rfl
        · simp [Except.toOption, outline_place, same (l ++ [piece])]
  | file l =>
    -- Nothing leads on from a file, whether it is there or not.
    cases p' with
    | folder k => cases alike
    | _ => rfl
  | vacant l =>
    cases p' with
    | folder k => cases alike
    | _ => rfl

theorem outline_foldlM (same : d.SameFolders d') (pieces : List String) {p p' : Place}
    (alike : p.outline = p'.outline) :
    (pieces.foldlM d.step p).toOption.map Place.outline
      = (pieces.foldlM d'.step p').toOption.map Place.outline := by
  induction pieces generalizing p p' with
  | nil => exact congrArg some alike
  | cons piece pieces ih =>
    have first := same.outline_step alike piece
    rw [List.foldlM_cons, List.foldlM_cons]
    cases stepped : d.step p piece with
    | error e =>
      cases stepped' : d'.step p' piece with
      | error e' => rfl
      | ok q' => simp [stepped, stepped', Except.toOption] at first
    | ok q =>
      cases stepped' : d'.step p' piece with
      | error e' => simp [stepped, stepped', Except.toOption] at first
      | ok q' =>
        refine ih ?_
        simpa [stepped, stepped', Except.toOption] using first

/-- The file that a path names depends on the folders alone. -/
theorem fileAt?_eq (same : d.SameFolders d') (path : String) :
    d'.fileAt? path = d.fileAt? path := by
  have by_outline : ∀ r : Except FileError Place,
      r.toOption.bind Place.file? = (r.toOption.map Place.outline).bind Place.file? := by
    rintro (e | p)
    · rfl
    · exact (Place.file?_outline p).symm
  rw [fileAt?, fileAt?, locate, locate]
  split
  · rfl
  · split
    · rfl
    · rw [by_outline, by_outline, follow, follow, same.outline_foldlM _ rfl]

end SameFolders

/-- Where a path names a file, writing it makes no folder. -/
theorem sameFolders_put (named : d.fileAt? path = some l) (bytes : Bytes) :
    d.SameFolders (d.put l bytes) := by
  obtain ⟨way, -⟩ := wayTo_of_fileAt? named
  obtain ⟨k, piece, -, rfl, there, -⟩ := way.exists_last
  intro m
  by_cases own : m = k ++ [piece]
  · -- The file itself is no folder, neither before it is written nor after.
    rw [own, way.free]
    simp [holdsFolder]
  · have folders : d.hasFolder m = (d.put (k ++ [piece]) bytes).hasFolder m := by
      rw [Bool.eq_iff_iff, hasFolder_iff, hasFolder_iff]
      constructor
      · rintro (outer | ⟨f, held, below⟩)
        · exact .inl outer
        · refine .inr ⟨f, ?_, below⟩
          rw [content?_put]
          split
          · rfl
          · exact held
      · rintro (outer | ⟨f, held, inside, shorter⟩)
        · exact .inl outer
        · rw [content?_put] at held
          split at held
          · next new =>
            -- What is above the new file is above its folder, or the folder itself.
            rw [new, List.prefix_concat_iff] at inside
            have above := hasFolder_of_inside (inside.resolve_left own) there
            exact hasFolder_iff.mp above
          · exact .inr ⟨f, held, inside, shorter⟩
    rw [holdsFolder, holdsFolder, content?_put, if_neg own, folders]

/-! ## §5 Targets -/

/-- A path that names a file has a last component that names something, and it is that of the
    location. -/
theorem exists_cut_of_fileAt? (named : d.fileAt? path = some l) :
    ∃ before name, Path.Cut path.toList before name ∧ Path.Naming name
      ∧ l.getLast? = some (String.ofList name) := by
  obtain ⟨k, piece, last, rfl, -, nonempty, not_here, not_around⟩ :=
    (wayTo_of_fileAt? named).1.exists_last
  have cut := Path.Cut.of_reverse path.toList.reverse
  rw [List.reverse_reverse] at cut
  rw [Path.pieces, List.getLast?_map, cut.getLast?_pieceChars] at last
  obtain rfl := Option.some.inj last
  refine ⟨_, _, cut, ⟨?_, ?_, ?_⟩, List.getLast?_concat⟩
  · exact fun same => nonempty (congrArg String.ofList same)
  · exact fun same => not_here (congrArg String.ofList same)
  · exact fun same => not_around (congrArg String.ofList same)

/-- A file that the target of another path names is its own target. -/
theorem withExtension_of_sameFile {extension path' : String} (plain : '/' ∉ extension.toList)
    (undotted : '.' ∉ extension.toList)
    (same : d.SameFile (Path.withExtension extension path') path) :
    Path.withExtension extension path = path := by
  obtain ⟨l, target_named, named⟩ := same
  obtain ⟨before', name', cut', naming', last'⟩ := exists_cut_of_fileAt? target_named
  obtain ⟨before, name, cut, naming, last⟩ := exists_cut_of_fileAt? named
  -- Both paths end with the name of the file, and that of the target has the extension.
  obtain rfl : name = name' :=
    String.ofList_inj.mp (Option.some.inj (last.symm.trans last'))
  obtain ⟨s, nonempty, ordinary, rfl⟩ := Path.exists_stem_of_cut plain cut' naming
  exact Path.withExtension_eq_self undotted cut nonempty ordinary

end Directory

end ActionFlow
