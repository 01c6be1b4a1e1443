import ActionFlow.Command
import ActionFlow.Proofs.FileNames

/-!
# Building many documents

A build goes through its inputs one after the other, and every document is read and written in the
directory that the ones before it have left. Here a run of the command is taken apart into what it
does to the directory: each input either puts its code into the file that its target names, or does
nothing. What an input puts there depends on the folders, which stay, and on one file, its own. So
the inputs do not see each other, as long as no target is written twice.

## Main statements

- `Directory.output?`: what building an input writes, and where.
- `World.run_build`: a run of the command is a pass over the directory.
- `Directory.Grows`: what a pass can change.
- `Directory.Grows.output?_eq`: an input gives the same code in the changed directory.
- `Directory.outputs_builtAll`: with distinct targets, each input gives what it gives by itself.
- `build_writes_each_target`: a build with distinct targets, in any order.
- `build_keeps_last_output`: what a successful build leaves in a target.
- `twinNames_lose_output`: a successful build can lose an output.
-/

namespace ActionFlow

/-! ## §1 What one input does -/

namespace Directory

variable {d : Directory}

/-- The code of the document in the file that a path names. -/
def compile? (d : Directory) (o : Options) (input : String) : Option Bytes :=
  (Document.ofRead input (d.read input)).toOption.bind fun doc => (lower doc.graph o).toOption

/-- What building an input writes, and where; nothing if the document or its target fails. -/
def output? (d : Directory) (b : BuildRequest) (input : String) : Option (Location × Bytes) :=
  (d.compile? b.options input).bind fun bytes =>
    (d.fileAt? (b.target input)).map fun l => (l, bytes)

/-- The directory after building an input. -/
def built (d : Directory) (b : BuildRequest) (input : String) : Directory :=
  (d.output? b input).elim d fun out => d.put out.1 out.2

/-- Whether all inputs can be built one after the other, and the directory after that. -/
def builtAll (b : BuildRequest) (d : Directory) : List String → Bool × Directory
  | [] => (true, d)
  | input :: rest =>
    ((d.output? b input).isSome && (builtAll b (d.built b input) rest).1,
      (builtAll b (d.built b input) rest).2)

theorem builtAll_append (b : BuildRequest) (d : Directory) (xs ys : List String) :
    builtAll b d (xs ++ ys)
      = ((builtAll b d xs).1 && (builtAll b (builtAll b d xs).2 ys).1,
        (builtAll b (builtAll b d xs).2 ys).2) := by
  induction xs generalizing d with
  | nil => simp [builtAll]
  | cons x xs ih => simp [builtAll, ih, Bool.and_assoc]

end Directory

/-! ## §2 Runs of the command -/

/-- A computation that leaves the directory alone. -/
def Session.Quiet {α : Type} (x : Session α) : Prop := ∀ w, (x w).2.directory = w.directory

theorem quiet_log (f : LogFilter) (r : LogRecord) : Session.Quiet (log f r) := by
  intro w
  unfold log
  split <;> rfl

theorem quiet_forM_log {α : Type} (f : LogFilter) (record : α → LogRecord) (xs : List α) :
    Session.Quiet (xs.forM fun x => log f (record x)) := by
  intro w
  induction xs generalizing w with
  | nil => rfl
  | cons x xs ih => exact (ih _).trans (quiet_log f (record x) w)

theorem run_writeCode (f : LogFilter) (doc : Document) (target : String) (bytes : Bytes)
    (w : World) :
    let r := (writeCode f doc target bytes : Session Bool) w
    r.1 = (w.directory.fileAt? target).isSome
      ∧ r.2.directory
        = ((w.directory.fileAt? target).map (w.directory.put · bytes)).getD w.directory := by
  intro r
  have written := Directory.toOption_write w.directory target bytes
  simp only [r, writeCode, bind, StateT.bind, Host.write]
  cases outcome : w.directory.write target bytes with
  | error e =>
    rw [outcome] at written
    rw [← written, ← Option.isSome_map, ← written]
    exact ⟨rfl, rfl⟩
  | ok d' =>
    rw [outcome] at written
    rw [← written, ← Option.isSome_map, ← written]
    -- What is logged and printed after writing does not reach the directory.
    refine ⟨rfl, ?_⟩
    exact quiet_log f (writtenRecord target bytes) { w with directory := d' }

theorem run_load (input : String) (w : World) :
    (Document.load input : Session (Except SourceError Document)) w
      = (Document.ofRead input (w.directory.read input), w) := rfl

theorem run_buildDocument (f : LogFilter) (b : BuildRequest) (input : String) (w : World) :
    let r := (buildDocument f b input : Session Bool) w
    r.1 = (w.directory.output? b input).isSome ∧ r.2.directory = w.directory.built b input := by
  intro r
  simp only [r, buildDocument, bind, StateT.bind, run_load]
  rw [Directory.built, Directory.output?, Directory.compile?]
  cases loaded : Document.ofRead input (w.directory.read input) with
  | error e => exact ⟨rfl, rfl⟩
  | ok doc =>
    -- The events of lowering are logged before its result is looked at.
    have logged := quiet_forM_log f Event.record (lowerTraced doc.graph b.options).events w
    simp only [StateT.bind, Except.toOption, Option.bind_some, lower]
    cases (lowerTraced doc.graph b.options).result with
    | error e => exact ⟨rfl, logged⟩
    | ok bytes =>
      obtain ⟨status_eq, directory_eq⟩ := run_writeCode f doc (b.target input) bytes
        (((lowerTraced doc.graph b.options).events.forM fun e => log f e.record : Session Unit) w).2
      rw [logged] at status_eq directory_eq
      refine ⟨status_eq.trans ?_, directory_eq.trans ?_⟩
      · cases w.directory.fileAt? (b.target input) <;> rfl
      · cases w.directory.fileAt? (b.target input) <;> rfl

theorem run_buildDocuments (f : LogFilter) (b : BuildRequest) (inputs : List String) (w : World) :
    let r := (buildDocuments f b inputs : Session Bool) w
    (r.1, r.2.directory) = Directory.builtAll b w.directory inputs := by
  induction inputs generalizing w with
  | nil => rfl
  | cons input rest ih =>
    -- The rest of the inputs runs on the world that the first one leaves.
    obtain ⟨first, after⟩ := run_buildDocument f b input w
    have others := ih ((buildDocument f b input : Session Bool) w).2
    rw [after] at others
    rw [Directory.builtAll, ← first, ← others]
    rfl

theorem run_expandInputs {inputs : List String}
    (literal : ∀ input ∈ inputs, Glob.isPattern input = false) (w : World) :
    (expandInputs inputs : Session (Except Unit (List String))) w = (.ok inputs, w) := by
  induction inputs with
  | nil => rfl
  | cons input rest ih =>
    have others := ih fun x hx => literal x (List.mem_cons_of_mem _ hx)
    have first :
        (expandInput input : Session (Except Unit (List String))) w = (.ok [input], w) := by
      rw [expandInput, if_neg (by simp [literal input List.mem_cons_self])]
      rfl
    simp only [expandInputs, bind, StateT.bind, first, others]
    rfl

theorem run_build {f : LogFilter} {b : BuildRequest} (given : b.inputs ≠ [])
    (beside : b.output = none) (literal : ∀ input ∈ b.inputs, Glob.isPattern input = false)
    (w : World) :
    let r := (build f b : Session Bool) w
    (r.1, r.2.directory) = Directory.builtAll b w.directory b.inputs := by
  intro r
  have given' : ¬ b.inputs.isEmpty = true := by simpa using given
  have several : ¬ (b.output.isSome = true ∧ b.inputs.length ≠ 1) := by simp [beside]
  simp only [r, build, bind, StateT.bind, run_expandInputs literal, if_neg given', if_neg several]
  have passed := run_buildDocuments f b b.inputs
    ((log f (startRecord b.inputs.length b.options) : Session Unit) w).2
  rw [quiet_log] at passed
  exact passed

namespace CommandLine

theorem inputs_ne_nil_of_parseBuild {arguments : List String} {c : CommandLine} {b : BuildRequest}
    (parsed : parseBuild arguments = .ok c) (request : c.request = .build b) : b.inputs ≠ [] := by
  rw [parseBuild] at parsed
  obtain ⟨draft, -, parsed⟩ := bind_eq_ok_iff.mp parsed
  split at parsed
  · cases parsed
  · next given =>
    obtain rfl := Except.ok.inj parsed
    obtain rfl := Request.build.inj request
    simpa using given

theorem request_withDefault (verbosity : Nat) (c : CommandLine) :
    (withDefault verbosity c).request = c.request := by
  unfold withDefault
  split <;> rfl

theorem not_build_of_parseList {arguments : List String} {c : CommandLine}
    (parsed : parseList arguments = .ok c) (b : BuildRequest) : c.request ≠ .build b := by
  rw [parseList] at parsed
  obtain ⟨draft, -, parsed⟩ := bind_eq_ok_iff.mp parsed
  split at parsed
  · cases parsed
  · obtain rfl := Except.ok.inj parsed
    exact fun same => by cases same

/-- A command line that asks for a build names an input. -/
theorem inputs_ne_nil {arguments : List String} {c : CommandLine} {b : BuildRequest} {draft : Draft}
    (parsed : parseFrom draft arguments = .ok c) (request : c.request = .build b) :
    b.inputs ≠ [] := by
  fun_induction parseFrom draft arguments with
  | case1 => cases parsed; cases request
  | case2 => cases parsed; cases request
  | case4 =>
    -- The one form that asks for a build, and it is refused without an operand.
    obtain ⟨own, own_parsed, rfl⟩ := map_eq_ok_iff.mp parsed
    rw [request_withDefault] at request
    exact inputs_ne_nil_of_parseBuild own_parsed request
  | case5 =>
    obtain ⟨own, own_parsed, rfl⟩ := map_eq_ok_iff.mp parsed
    rw [request_withDefault] at request
    exact absurd request (not_build_of_parseList own_parsed b)
  | case9 _ _ _ _ _ _ _ _ _ _ ih => exact ih parsed
  | _ => cases parsed

end CommandLine

/-- What a run of a build does to the directory, and how it ends. -/
theorem World.run_build (d : Directory) {arguments : List String} (setting? : Option String)
    {c : CommandLine} {b : BuildRequest} (parsed : CommandLine.parse arguments = .ok c)
    (request : c.request = .build b) (beside : b.output = none)
    (literal : ∀ input ∈ b.inputs, Glob.isPattern input = false) :
    (World.run d arguments setting?).1 = .ofBool (Directory.builtAll b d b.inputs).1
      ∧ (World.run d arguments setting?).2.directory = (Directory.builtAll b d b.inputs).2 := by
  have given := CommandLine.inputs_ne_nil parsed request
  have passed := ActionFlow.run_build (f := logFilter setting? c.verbosity) given beside literal
    { directory := d }
  rw [World.run, runCommand, parsed]
  simp only [request, runRequest, bind, StateT.bind]
  rw [← passed]
  exact ⟨rfl, rfl⟩

/-! ## §3 What a pass over the directory can change -/

namespace Directory

variable {d d' d'' : Directory} {b : BuildRequest}

theorem sameFile_iff_of_sameFolders (folders : d.SameFolders d') (path path' : String) :
    d'.SameFile path path' ↔ d.SameFile path path' := by
  simp only [SameFile, folders.fileAt?_eq]

instance (path path' : String) : Decidable (d.SameFile path path') :=
  decidable_of_iff ((d.fileAt? path).isSome = true ∧ d.fileAt? path = d.fileAt? path') <| by
    cases named : d.fileAt? path with
    | none => simp [SameFile, named]
    | some l => simp [SameFile, named, eq_comm]

/-- The folders are the same, and all files but the targets of the given inputs. -/
structure Grows (d d' : Directory) (b : BuildRequest) (inputs : List String) : Prop where
  folders : d.SameFolders d'
  kept : ∀ l, (∀ input ∈ inputs, d.fileAt? (b.target input) ≠ some l) →
    d'.content? l = d.content? l

theorem output?_eq_some_iff {input : String} {l : Location} {bytes : Bytes} :
    d.output? b input = some (l, bytes) ↔
      d.compile? b.options input = some bytes ∧ d.fileAt? (b.target input) = some l := by
  simp only [output?, Option.bind_eq_some_iff, Option.map_eq_some_iff, Prod.mk.injEq]
  constructor
  · rintro ⟨code, compiled, k, named, rfl, rfl⟩
    exact ⟨compiled, named⟩
  · rintro ⟨compiled, named⟩
    exact ⟨bytes, compiled, l, named, rfl, rfl⟩

theorem built_of_output? {input : String} {l : Location} {bytes : Bytes}
    (out : d.output? b input = some (l, bytes)) : d.built b input = d.put l bytes := by
  rw [built, out]
  rfl

theorem built_of_none {input : String} (out : d.output? b input = none) : d.built b input = d := by
  rw [built, out]
  rfl

theorem grows_built (d : Directory) (b : BuildRequest) (input : String) :
    d.Grows (d.built b input) b [input] := by
  cases out : d.output? b input with
  | none =>
    rw [built_of_none out]
    exact ⟨fun _ => rfl, fun _ _ => rfl⟩
  | some pair =>
    obtain ⟨l, bytes⟩ := pair
    have named := (output?_eq_some_iff.mp out).2
    rw [built_of_output? out]
    refine ⟨sameFolders_put named bytes, fun k other => ?_⟩
    rw [content?_put, if_neg]
    rintro rfl
    exact other input List.mem_cons_self named

theorem Grows.append {xs ys : List String} (first : d.Grows d' b xs) (second : d'.Grows d'' b ys) :
    d.Grows d'' b (xs ++ ys) where
  folders := fun l => (first.folders l).trans (second.folders l)
  kept := by
    intro l other
    simp only [List.mem_append, or_imp, forall_and] at other
    rw [second.kept l, first.kept l other.1]
    intro input hinput
    rw [first.folders.fileAt?_eq]
    exact other.2 input hinput

/-- A pass over the directory changes no folder, and no file but the targets of its inputs. -/
theorem grows_builtAll (b : BuildRequest) (d : Directory) (inputs : List String) :
    d.Grows (builtAll b d inputs).2 b inputs := by
  induction inputs generalizing d with
  | nil => exact ⟨fun _ => rfl, fun _ _ => rfl⟩
  | cons input rest ih => exact (grows_built d b input).append (ih _)

theorem compile?_eq (d : Directory) (o : Options) (input : String) :
    d.compile? o input = ((d.fileAt? input).bind d.content?).bind fun bytes =>
      (Document.ofBytes input bytes).toOption.bind fun doc => (lower doc.graph o).toOption := by
  rw [compile?, ← toOption_read]
  cases d.read input <;> rfl

/-- An input gives the same code as before, in the same place, if its own file is not among the
    targets that may have changed. -/
theorem Grows.output?_eq {done : List String} (grows : d.Grows d' b done) {input : String}
    (own : ∀ other ∈ done, ¬ d.SameFile (b.target other) input) :
    d'.output? b input = d.output? b input := by
  have held : (d'.fileAt? input).bind d'.content? = (d.fileAt? input).bind d.content? := by
    rw [grows.folders.fileAt?_eq]
    cases named : d.fileAt? input with
    | none => rfl
    | some l => exact grows.kept l fun other hother target => own other hother ⟨l, target, named⟩
  rw [output?, output?, compile?_eq, compile?_eq, held, grows.folders.fileAt?_eq]

/-- An input that is the target of another one is its own target, so the two have the same one. -/
theorem sameFile_target_of_sameFile (beside : b.output = none) {other input : String}
    (same : d.SameFile (b.target other) input) :
    d.SameFile (b.target input) input ∧ d.SameFile (b.target other) (b.target input) := by
  have target_eq : ∀ x, b.target x = Path.withExtension "avm1" x := fun x => by
    rw [BuildRequest.target, beside]
    rfl
  have own : b.target input = input := by
    rw [target_eq] at same ⊢
    exact withExtension_of_sameFile (by decide) (by decide) same
  obtain ⟨l, named_other, named⟩ := same
  rw [own]
  exact ⟨⟨l, named, named⟩, l, named_other, named⟩

/-! ## §4 Distinct targets -/

/-- No two of the inputs have the same target. -/
def Apart (d : Directory) (b : BuildRequest) (inputs : List String) : Prop :=
  inputs.Pairwise fun x y => ¬ d.SameFile (b.target x) (b.target y)

instance (b : BuildRequest) (inputs : List String) : Decidable (d.Apart b inputs) :=
  inferInstanceAs (Decidable (inputs.Pairwise fun x y => ¬ d.SameFile (b.target x) (b.target y)))

/-- The directory with the code of each input in its target, and nothing else changed. -/
structure Outputs (d d' : Directory) (b : BuildRequest) (inputs : List String) : Prop where
  written : ∀ input ∈ inputs, ∀ l bytes, d.output? b input = some (l, bytes) →
    d'.content? l = some bytes
  kept : ∀ l, (∀ input ∈ inputs, ∀ bytes, d.output? b input ≠ some (l, bytes)) →
    d'.content? l = d.content? l

/-- The outputs of the inputs determine the directory. -/
theorem Outputs.content?_eq {inputs inputs' : List String} (first : d.Outputs d' b inputs)
    (second : d.Outputs d'' b inputs') (perm : inputs'.Perm inputs) (l : Location) :
    d''.content? l = d'.content? l := by
  -- A location is the target of some input or of none, in either order of the inputs.
  by_cases target : ∃ input ∈ inputs, ∃ bytes, d.output? b input = some (l, bytes)
  · obtain ⟨input, mem, bytes, out⟩ := target
    have mem' := perm.mem_iff.mpr mem
    rw [first.written input mem l bytes out, second.written input mem' l bytes out]
  · have other : ∀ input ∈ inputs, ∀ bytes, d.output? b input ≠ some (l, bytes) :=
      fun input mem bytes out => target ⟨input, mem, bytes, out⟩
    rw [first.kept l other, second.kept l fun input mem => other input (perm.mem_iff.mp mem)]

/-- After the first of some inputs with distinct targets, the others give what they gave before. -/
theorem Apart.output?_built {input : String} {rest : List String} (beside : b.output = none)
    (apart : d.Apart b (input :: rest)) :
    ∀ x ∈ rest, (d.built b input).output? b x = d.output? b x := by
  intro x hx
  -- If the first target were the file of `x`, it would be the target of `x` as well.
  refine (grows_built d b input).output?_eq fun other hother same => ?_
  obtain rfl := List.mem_singleton.mp hother
  exact List.rel_of_pairwise_cons apart hx (sameFile_target_of_sameFile beside same).2

theorem outputs_cons {input : String} {rest : List String} (apart : d.Apart b (input :: rest))
    (same : ∀ x ∈ rest, (d.built b input).output? b x = d.output? b x)
    (others : (d.built b input).Outputs d' b rest) : d.Outputs d' b (input :: rest) where
  written := by
    intro x hx l bytes out
    rcases List.mem_cons.mp hx with rfl | hx
    · -- No later input writes to the target of the first.
      rw [others.kept l, built_of_output? out, content?_put, if_pos rfl]
      intro y hy code out'
      rw [same y hy] at out'
      exact List.rel_of_pairwise_cons apart hy
        ⟨l, (output?_eq_some_iff.mp out).2, (output?_eq_some_iff.mp out').2⟩
    · exact others.written x hx l bytes ((same x hx).trans out)
  kept := by
    intro l other
    have later : ∀ x ∈ rest, ∀ bytes, (d.built b input).output? b x ≠ some (l, bytes) := by
      intro x hx bytes
      rw [same x hx]
      exact other x (List.mem_cons_of_mem _ hx) bytes
    rw [others.kept l later]
    cases out : d.output? b input with
    | none => rw [built_of_none out]
    | some pair =>
      rw [built_of_output? out, content?_put, if_neg]
      rintro rfl
      exact other input List.mem_cons_self pair.2 out

/-- With distinct targets, a pass over the directory writes what each input gives by itself. -/
theorem outputs_builtAll (beside : b.output = none) {inputs : List String}
    (apart : d.Apart b inputs) :
    (builtAll b d inputs).1 = inputs.all (fun input => (d.output? b input).isSome)
      ∧ d.Outputs (builtAll b d inputs).2 b inputs := by
  induction inputs generalizing d with
  | nil => exact ⟨rfl, by simp [builtAll], fun _ _ => rfl⟩
  | cons input rest ih =>
    have same := apart.output?_built beside
    have folders := (grows_built d b input).folders
    have apart' : (d.built b input).Apart b rest := by
      simpa only [Apart, sameFile_iff_of_sameFolders folders] using apart.of_cons
    obtain ⟨status_eq, others⟩ := ih apart'
    have rest_eq : rest.all (fun x => ((d.built b input).output? b x).isSome)
        = rest.all fun x => (d.output? b x).isSome := by
      rw [Bool.eq_iff_iff, List.all_eq_true, List.all_eq_true]
      exact forall₂_congr fun x hx => by rw [same x hx]
    refine ⟨?_, outputs_cons apart same others⟩
    rw [builtAll, List.all_cons, status_eq, rest_eq]

end Directory

section Command

variable {d : Directory} {arguments : List String} {setting? : Option String} {c : CommandLine}
  {b : BuildRequest}

theorem World.outputs_run (parsed : CommandLine.parse arguments = .ok c)
    (request : c.request = .build b) (beside : b.output = none)
    (literal : ∀ input ∈ b.inputs, Glob.isPattern input = false) (apart : d.Apart b b.inputs) :
    (World.run d arguments setting?).1
        = .ofBool (b.inputs.all fun input => (d.output? b input).isSome)
      ∧ d.Outputs (World.run d arguments setting?).2.directory b b.inputs := by
  obtain ⟨status_eq, directory_eq⟩ := World.run_build d setting? parsed request beside literal
  obtain ⟨all_eq, outputs⟩ := Directory.outputs_builtAll beside apart
  rw [status_eq, directory_eq, all_eq]
  exact ⟨rfl, outputs⟩

/-- A build beside its inputs writes the code of each input to its target, if no two targets are the
    same file. No other file changes, and the build succeeds if and only if every input does. In any
    other order the same inputs leave the same files and the same status. -/
theorem build_writes_each_target (parsed : CommandLine.parse arguments = .ok c)
    (request : c.request = .build b) (beside : b.output = none)
    (literal : ∀ input ∈ b.inputs, Glob.isPattern input = false) (apart : d.Apart b b.inputs) :
    d.Outputs (World.run d arguments setting?).2.directory b b.inputs
      ∧ (World.run d arguments setting?).1
        = .ofBool (b.inputs.all fun input => (d.output? b input).isSome)
      ∧ ∀ arguments' setting?' c' inputs', CommandLine.parse arguments' = .ok c' →
        c'.request = .build { b with inputs := inputs' } → inputs'.Perm b.inputs →
          (World.run d arguments' setting?').1 = (World.run d arguments setting?).1
            ∧ ∀ l, (World.run d arguments' setting?').2.directory.content? l
              = (World.run d arguments setting?).2.directory.content? l := by
  obtain ⟨status_eq, outputs⟩ := World.outputs_run parsed request beside literal apart
  refine ⟨outputs, status_eq, fun arguments' setting?' c' inputs' parsed' request' perm => ?_⟩
  -- Literal paths and distinct targets are a matter of which inputs there are, not of their order.
  have literal' : ∀ input ∈ inputs', Glob.isPattern input = false :=
    fun input mem => literal input (perm.mem_iff.mp mem)
  have apart' : d.Apart b inputs' :=
    (perm.pairwise_iff fun different ⟨l, first, second⟩ => different ⟨l, second, first⟩).mpr apart
  obtain ⟨status_eq', outputs'⟩ := World.outputs_run parsed' request' beside literal' apart'
  refine ⟨?_, outputs.content?_eq ⟨outputs'.written, outputs'.kept⟩ perm⟩
  rw [status_eq, status_eq']
  exact congrArg ExitStatus.ofBool perm.all_eq

/-- A document with a single block. -/
def blockText (flow : String) : Bytes :=
  Bytes.ofText ("\x7b\"blocks\": [\x7b\"label\": \"x\", \"flow\": \x7b\"type\": \"" ++ flow
    ++ "\"\x7d\x7d]\x7d")

/-- Two documents in different folders, and a file that is no document. -/
def threeFiles : Directory :=
  ⟨[(["a.json"], blockText "Return"), (["sub", "b.json"], blockText "Throw"), (["c.json"], [0])]⟩

/-- A request to build all three. -/
def threeRequest : BuildRequest := { inputs := ["c.json", "a.json", "sub/b.json"] }

theorem output_threeFiles : threeFiles.output? threeRequest "c.json" = none
    ∧ threeFiles.output? threeRequest "a.json" = some (["a.avm1"], [0x3e, 0])
    ∧ threeFiles.output? threeRequest "sub/b.json" = some (["sub", "b.avm1"], [0x2a, 0]) := by
  decide +kernel

theorem threeFiles_built :
    let r := World.run threeFiles ["build", "c.json", "a.json", "sub/b.json"] none
    let r' := World.run threeFiles ["build", "sub/b.json", "a.json", "c.json"] none
    r.1 = .failure ∧ r.2.directory.content? ["sub", "b.avm1"] = some [0x2a, 0]
      ∧ r.2.directory.content? ["c.avm1"] = none
      ∧ r'.1 = r.1 ∧ ∀ l, r'.2.directory.content? l = r.2.directory.content? l := by
  have parsed : CommandLine.parse ["build", "c.json", "a.json", "sub/b.json"]
      = .ok ⟨0, .build threeRequest⟩ := by
    cbv
  have parsed' : CommandLine.parse ["build", "sub/b.json", "a.json", "c.json"]
      = .ok ⟨0, .build { threeRequest with inputs := ["sub/b.json", "a.json", "c.json"] }⟩ := by
    cbv
  obtain ⟨outputs, status_eq, reordered⟩ :=
    build_writes_each_target (d := threeFiles) parsed rfl rfl (by decide) (by decide +kernel)
  obtain ⟨out_c, out_a, out_b⟩ := output_threeFiles
  have inputs_eq : threeRequest.inputs = ["c.json", "a.json", "sub/b.json"] := rfl
  refine ⟨?_, ?_, ?_, reordered _ none _ _ parsed' rfl (by decide)⟩
  · exact status_eq.trans (by simp [inputs_eq, out_c, ExitStatus.ofBool])
  · exact outputs.written "sub/b.json" (by decide) _ _ out_b
  · exact outputs.kept _ (by simp [inputs_eq, out_c, out_a, out_b])

/-- In a successful build, every input can be built when its turn comes. -/
theorem Directory.exists_output_of_builtAll {before after : List String} {input : String}
    (success : (builtAll b d (before ++ input :: after)).1 = true) :
    ∃ l bytes, (builtAll b d before).2.output? b input = some (l, bytes) := by
  rw [builtAll_append] at success
  simp only [builtAll, Bool.and_eq_true] at success
  obtain ⟨pair, out⟩ := Option.isSome_iff_exists.mp success.2.1
  exact ⟨pair.1, pair.2, out⟩

/-- What was written to a target stays there if no later input has this target. -/
theorem Directory.content?_builtAll {before after : List String} {input : String} {l : Location}
    {bytes : Bytes} (out : (builtAll b d before).2.output? b input = some (l, bytes))
    (last : ∀ other ∈ after, ¬ d.SameFile (b.target other) (b.target input)) :
    (builtAll b d (before ++ input :: after)).2.content? l = some bytes := by
  have earlier := (grows_builtAll b d before).folders
  have folders := ((grows_builtAll b d before).append (grows_built _ b input)).folders
  have named := (output?_eq_some_iff.mp out).2
  rw [earlier.fileAt?_eq] at named
  -- From the turn of the input on, only targets of later inputs change.
  have later := grows_builtAll b ((builtAll b d before).2.built b input) after
  rw [builtAll_append]
  change (builtAll b ((builtAll b d before).2.built b input) after).2.content? l = some bytes
  rw [later.kept l, built_of_output? out, content?_put, if_pos rfl]
  intro other mem same
  rw [folders.fileAt?_eq] at same
  exact last other mem ⟨l, same, named⟩

/-- A successful build leaves in each target the code of the last input that has this target, as
    its document was before the build. Earlier inputs with this target do no harm unless the target
    is the input itself. -/
theorem build_keeps_last_output (parsed : CommandLine.parse arguments = .ok c)
    (request : c.request = .build b) (beside : b.output = none)
    (literal : ∀ input ∈ b.inputs, Glob.isPattern input = false)
    (success : (World.run d arguments setting?).1 = .success) {before after : List String}
    {input : String} (inputs_eq : b.inputs = before ++ input :: after)
    (last : ∀ other ∈ after, ¬ d.SameFile (b.target other) (b.target input))
    (unharmed : ∀ other ∈ before, d.SameFile (b.target other) (b.target input) →
      ¬ d.SameFile (b.target input) input) :
    ∃ bytes, d.compile? b.options input = some bytes
      ∧ (World.run d arguments setting?).2.directory.read (b.target input) = .ok bytes := by
  obtain ⟨status_eq, directory_eq⟩ := World.run_build d setting? parsed request beside literal
  have all_built : (Directory.builtAll b d b.inputs).1 = true := by
    rw [status_eq] at success
    cases built : (Directory.builtAll b d b.inputs).1 with
    | true => rfl
    | false => simp [built, ExitStatus.ofBool] at success
  rw [inputs_eq] at all_built directory_eq
  obtain ⟨l, bytes, out⟩ := Directory.exists_output_of_builtAll all_built
  have held := Directory.content?_builtAll out last
  have folders := (Directory.grows_builtAll b d (before ++ input :: after)).folders
  -- The document was not written over before its turn.
  rw [(Directory.grows_builtAll b d before).output?_eq fun other mem same =>
    unharmed other mem (Directory.sameFile_target_of_sameFile beside same).2
      (Directory.sameFile_target_of_sameFile beside same).1] at out
  obtain ⟨compiled, named⟩ := Directory.output?_eq_some_iff.mp out
  rw [← folders.fileAt?_eq] at named
  rw [directory_eq]
  exact ⟨bytes, compiled, Directory.read_eq_ok_iff.mpr ⟨l, named, held⟩⟩

end Command

/-- Two documents in files with the same name and different extensions. -/
def twinNames : Directory :=
  ⟨[(["a.json"], blockText "Return"), (["a.txt"], blockText "Throw")]⟩

/-- A request to build both. -/
def twinRequest : BuildRequest := { inputs := ["a.json", "a.txt"] }

theorem parse_twinRequest :
    CommandLine.parse ["build", "a.json", "a.txt"] = .ok ⟨0, .build twinRequest⟩ := by
  cbv

theorem run_twinNames :
    let r := World.run twinNames ["build", "a.json", "a.txt"] none
    r.1 = .success
      ∧ (r.2.directory.read (twinRequest.target "a.json")).toOption = some [0x2a, 0] := by
  decide +kernel

theorem twinNames_keep_last : ∃ bytes,
    twinNames.compile? twinRequest.options "a.txt" = some bytes
      ∧ (World.run twinNames ["build", "a.json", "a.txt"] none).2.directory.read
        (twinRequest.target "a.txt") = .ok bytes :=
  build_keeps_last_output parse_twinRequest rfl rfl (by decide) run_twinNames.1
    (show twinRequest.inputs = ["a.json"] ++ "a.txt" :: [] from rfl) (by decide) (by decide +kernel)

/-- A build can succeed and lose an output: different inputs can have the same target, and the code
    of the first is written over. -/
theorem twinNames_lose_output :
    let r := World.run twinNames ["build", "a.json", "a.txt"] none
    CommandLine.parse ["build", "a.json", "a.txt"] = .ok ⟨0, .build twinRequest⟩
      ∧ ¬ twinNames.SameFile "a.json" "a.txt" ∧ r.1 = .success
      ∧ twinNames.compile? twinRequest.options "a.json" = some [0x3e, 0]
      ∧ (r.2.directory.read (twinRequest.target "a.json")).toOption = some [0x2a, 0] := by
  refine ⟨parse_twinRequest, ?_, run_twinNames.1, ?_, run_twinNames.2⟩
  · decide +kernel
  · decide +kernel

end ActionFlow
