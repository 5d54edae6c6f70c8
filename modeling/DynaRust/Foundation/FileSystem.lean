import DynaRust.Foundation.FiniteMap
import DynaRust.Foundation.Runs
import DynaRust.Foundation.Text

/-!
# A file system without links

Directories and text files at locations, the steps that programs take on them,
and what is on disk when a list of steps stops half way.
-/

namespace DynaRust.Foundation

/-! ## Names and paths -/

/-- The text is one component of a path and not `.` or `..`. -/
def IsFileName (text : Text) : Prop :=
  text ≠ [] ∧ text ≠ ['.'] ∧ text ≠ ['.', '.'] ∧ '/' ∉ text

instance (text : Text) : Decidable (IsFileName text) :=
  inferInstanceAs (Decidable (_ ∧ _))

/-- What a directory entry is called. -/
@[ext]
structure FileName where
  text : Text
  isFileName : IsFileName text
  deriving DecidableEq

/-- The names from the root down. -/
abbrev Location := List FileName

namespace Location

/-- Follow one component of a path: `..` goes to the parent, the empty
component and `.` stay. -/
def enter (location : Location) (component : Text) : Location :=
  if plain : IsFileName component then location ++ [⟨component, plain⟩]
  else if component = ['.', '.'] then location.dropLast
  else location

/-- The locations met on the way. -/
def enterAll (location : Location) : List Text → List Location
  | [] => []
  | component :: rest =>
      location.enter component :: enterAll (location.enter component) rest

/-- An absolute path does not start at `base`. -/
def start (base : Location) (path : Text) : Location :=
  if path.head? = some '/' then [] else base

/-- `Path::join`, resolved. -/
def join (base : Location) (path : Text) : Location :=
  (path.splitOn '/').foldl enter (base.start path)

/-- All directories that `create_dir_all` makes for `join base path`. -/
def visited (base : Location) (path : Text) : List Location :=
  (base.start path).inits ++ (base.start path).enterAll (path.splitOn '/')

theorem enter_fileName (location : Location) (name : FileName) :
    location.enter name.text = location ++ [name] := by
  rw [enter, dif_pos name.isFileName]

private theorem start_fileName (base : Location) (name : FileName) :
    base.start name.text = base := by
  refine if_neg ?_
  intro absolute
  exact name.isFileName.2.2.2 (List.mem_of_mem_head? absolute)

@[simp]
theorem join_fileName (base : Location) (name : FileName) :
    base.join name.text = base ++ [name] := by
  rw [join, start_fileName, List.splitOn_eq_singleton name.isFileName.2.2.2,
    List.foldl_cons, List.foldl_nil, enter_fileName]

theorem visited_fileName (base : Location) (name : FileName) :
    base.visited name.text = (base ++ [name]).inits := by
  rw [visited, start_fileName, List.splitOn_eq_singleton name.isFileName.2.2.2,
    enterAll, enterAll, enter_fileName, List.inits_append]
  rfl

end Location

/-! ## The disk -/

inductive Entry where
  | directory
  | file (content : Text)
  deriving DecidableEq

/-- A file with a text behind its content. -/
def Entry.append (text : Text) : Entry → Entry
  | .directory => .directory
  | .file content => .file (content ++ text)

/-- The entries below the root, and the names the file system takes. -/
structure Disk where
  accepts : FileName → Bool
  entries : HashMap Location Entry

namespace Disk

/-- The root is always a directory. -/
def entry (disk : Disk) (location : Location) : Option Entry :=
  if location = [] then some .directory else disk.entries.lookup location

def insert (disk : Disk) (location : Location) (entry : Entry) : Disk :=
  { disk with entries := disk.entries.insert location entry }

/-- The parent is a directory and the name is accepted. -/
def Permits (disk : Disk) (location : Location) : Prop :=
  disk.entry location.dropLast = some .directory ∧
    ∀ name ∈ location.getLast?, disk.accepts name = true

instance (disk : Disk) (location : Location) :
    Decidable (disk.Permits location) :=
  inferInstanceAs (Decidable (_ ∧ _))

/-- The file at a location, if there is one. -/
def content (disk : Disk) (location : Location) : Option Text :=
  match disk.entry location with
  | some (.file content) => some content
  | _ => none

/-- The names in a directory, in the order in which they are read. -/
structure Lists (disk : Disk) (directory : Location)
    (names : List FileName) : Prop where
  nodup : names.Nodup
  mem_iff : ∀ name,
    name ∈ names ↔ (disk.entry (directory ++ [name])).isSome = true

end Disk

/-! ## Steps -/

/-- A system call, or an error in between. -/
inductive DiskStep where
  | createDirectory (location : Location)
  | createFile (location : Location)
  | append (location : Location) (text : Text)
  | failed
  deriving DecidableEq

namespace Disk

/-- `createDirectory` is content with a directory that exists, and
`createFile` truncates a file that exists. -/
def take (disk : Disk) : DiskStep → Option Disk
  | .createDirectory location =>
      if disk.Permits location ∧ disk.content location = none then
        some (disk.insert location .directory)
      else
        none
  | .createFile location =>
      if disk.Permits location ∧ disk.entry location ≠ some .directory then
        some (disk.insert location (.file []))
      else
        none
  | .append location text =>
      (disk.content location).map fun content =>
        disk.insert location (.file (content ++ text))
  | .failed => none

end Disk

/-- What the step makes of the entry at a location. -/
def DiskStep.effect (location : Location) (entry : Option Entry) :
    DiskStep → Option Entry
  | .createDirectory target =>
      if target = location then some .directory else entry
  | .createFile target => if target = location then some (.file []) else entry
  | .append target text =>
      if target = location then
        entry.map fun found => found.append text
      else
        entry
  | .failed => entry

/-- What a list of steps makes of the entry at a location. -/
def effects (location : Location) (entry : Option Entry)
    (steps : List DiskStep) : Option Entry :=
  steps.foldl (fun current step => step.effect location current) entry

@[simp]
theorem effects_nil (location : Location) (entry : Option Entry) :
    effects location entry [] = entry :=
  rfl

@[simp]
theorem effects_cons (location : Location) (entry : Option Entry)
    (step : DiskStep) (rest : List DiskStep) :
    effects location entry (step :: rest) =
      effects location (step.effect location entry) rest :=
  rfl

theorem effects_append (location : Location) (entry : Option Entry)
    (first second : List DiskStep) :
    effects location entry (first ++ second) =
      effects location (effects location entry first) second :=
  List.foldl_append

theorem effects_createDirectories (location : Location)
    (entry : Option Entry) (made : List Location) :
    effects location entry (made.map .createDirectory) =
      if location ∈ made then some .directory else entry := by
  induction made generalizing entry with
  | nil =>
      rfl
  | cons target rest inductionHypothesis =>
      rw [List.map_cons, effects_cons, inductionHypothesis, DiskStep.effect]
      by_cases same : target = location
      · simp [same]
      · simp [same, Ne.symm same]

/-- The entry that the step may change. -/
def DiskStep.target : DiskStep → Option Location
  | .createDirectory location => some location
  | .createFile location => some location
  | .append location _ => some location
  | .failed => none

/-- A directory that was not made was there. -/
theorem entry_of_effects_directory {location : Location}
    {steps : List DiskStep} (notMade : .createDirectory location ∉ steps)
    {entry : Option Entry}
    (isDirectory : effects location entry steps = some .directory) :
    entry = some .directory := by
  induction steps generalizing entry with
  | nil =>
      exact isDirectory
  | cons step rest inductionHypothesis =>
      rw [List.mem_cons, not_or] at notMade
      rw [effects_cons] at isDirectory
      have between := inductionHypothesis notMade.2 isDirectory
      cases step with
      | createDirectory target =>
          rw [DiskStep.effect, if_neg] at between
          · exact between
          · rintro rfl
            exact notMade.1 rfl
      | createFile target =>
          rw [DiskStep.effect] at between
          split at between
          · cases between
          · exact between
      | append target text =>
          rw [DiskStep.effect] at between
          split at between
          · rcases entry with _ | _ | content
            · cases between
            · rfl
            · cases between
          · exact between
      | failed =>
          exact between

/-- Behind a truncation it does not matter what was there. -/
theorem effects_congr_of_createFile_mem {location : Location}
    {steps : List DiskStep} (created : .createFile location ∈ steps)
    (first second : Option Entry) :
    effects location first steps = effects location second steps := by
  obtain ⟨before, after, rfl⟩ := List.append_of_mem created
  rw [effects_append, effects_append, effects_cons, effects_cons,
    DiskStep.effect, DiskStep.effect, if_pos rfl, if_pos rfl]

theorem effects_of_forall_target_ne {location : Location}
    {steps : List DiskStep}
    (elsewhere : ∀ step ∈ steps, step.target ≠ some location)
    (entry : Option Entry) : effects location entry steps = entry := by
  induction steps with
  | nil =>
      rfl
  | cons step rest inductionHypothesis =>
      have kept : step.effect location entry = entry := by
        have other := elsewhere step List.mem_cons_self
        cases step with
        | createDirectory target =>
            exact if_neg fun same => other (congrArg some same)
        | createFile target =>
            exact if_neg fun same => other (congrArg some same)
        | append target text =>
            exact if_neg fun same => other (congrArg some same)
        | failed =>
            rfl
      rw [effects_cons, kept]
      exact inductionHypothesis fun later among =>
        elsewhere later (List.mem_cons_of_mem step among)

namespace Disk

theorem entry_insert {disk : Disk} {location : Location} {entry : Entry}
    (below : location = [] → entry = .directory) (tested : Location) :
    (disk.insert location entry).entry tested =
      if location = tested then some entry else disk.entry tested := by
  by_cases same : location = tested
  · subst tested
    rw [if_pos rfl, Disk.entry, insert, Finmap.lookup_insert]
    split
    · rename_i root
      rw [below root]
    · rfl
  · have other : tested ≠ location := Ne.symm same
    rw [if_neg same, Disk.entry, Disk.entry, insert,
      Finmap.lookup_insert_of_ne _ other]

theorem content_eq_some {disk : Disk} {location : Location} {text : Text} :
    disk.content location = some text ↔
      disk.entry location = some (.file text) := by
  unfold content
  split <;> simp_all

theorem content_congr {disk other : Disk} {location : Location}
    (same : disk.entry location = other.entry location) :
    disk.content location = other.content location := by
  rw [content, content, same]

theorem content_of_directory {disk : Disk} {location : Location}
    (isDirectory : disk.entry location = some .directory) :
    disk.content location = none := by
  rw [content, isDirectory]

theorem ne_nil_of_entry_ne {disk : Disk} {location : Location}
    (differs : disk.entry location ≠ some .directory) : location ≠ [] := by
  rintro rfl
  exact differs rfl

/-- A step changes entries by its effect, and never what is accepted. -/
theorem take_eq_some {disk next : Disk} {step : DiskStep}
    (taken : disk.take step = some next) :
    next.accepts = disk.accepts ∧
      ∀ location, next.entry location =
        step.effect location (disk.entry location) := by
  cases step with
  | createDirectory target =>
      obtain ⟨-, made⟩ := Option.ite_none_right_eq_some.mp taken
      cases made
      exact ⟨rfl, entry_insert fun _ => rfl⟩
  | createFile target =>
      obtain ⟨able, made⟩ := Option.ite_none_right_eq_some.mp taken
      cases made
      have below := ne_nil_of_entry_ne able.2
      exact ⟨rfl, entry_insert fun root => absurd root below⟩
  | append target text =>
      obtain ⟨content, found, rfl⟩ := Option.map_eq_some_iff.mp taken
      rw [content_eq_some] at found
      have isFile : disk.entry target ≠ some .directory := by
        rw [found]
        simp
      have below : target ≠ [] := ne_nil_of_entry_ne isFile
      refine ⟨rfl, fun location => ?_⟩
      rw [entry_insert (fun root => absurd root below), DiskStep.effect]
      split
      · rename_i same
        rw [← same, found]
        rfl
      · rfl
  | failed =>
      cases taken

/-- Directories stay. -/
theorem entry_directory_take {disk next : Disk} {step : DiskStep}
    {location : Location} (taken : disk.take step = some next)
    (isDirectory : disk.entry location = some .directory) :
    next.entry location = some .directory := by
  rw [(take_eq_some taken).2, isDirectory]
  cases step with
  | createDirectory target =>
      exact ite_self _
  | createFile target =>
      obtain ⟨able, -⟩ := Option.ite_none_right_eq_some.mp taken
      refine if_neg ?_
      rintro rfl
      exact able.2 isDirectory
  | append target text =>
      exact ite_self _
  | failed =>
      rfl

/-! ## Runs -/

abbrev run (disk : Disk) (steps : List DiskStep) : Option Disk :=
  runSteps take disk steps

theorem accepts_run {disk final : Disk} {steps : List DiskStep}
    (reached : disk.run steps = some final) :
    final.accepts = disk.accepts := by
  have always := stepsMeet_true take disk steps
  apply runSteps_induction
    (fun (state : Disk) => state.accepts = disk.accepts) _ always reached rfl
  intro state step next _ taken same
  rw [(take_eq_some taken).1, same]

theorem entry_run {disk final : Disk} {steps : List DiskStep}
    (reached : disk.run steps = some final) (location : Location) :
    final.entry location =
      effects location (disk.entry location) steps := by
  induction steps generalizing disk with
  | nil =>
      cases Option.some.inj reached
      rfl
  | cons step rest inductionHypothesis =>
      obtain ⟨next, taken, finished⟩ := runSteps_cons_eq_some.mp reached
      rw [inductionHypothesis finished, (take_eq_some taken).2,
        effects_cons]

theorem entry_directory_run {disk final : Disk} {steps : List DiskStep}
    {location : Location} (reached : disk.run steps = some final)
    (isDirectory : disk.entry location = some .directory) :
    final.entry location = some .directory := by
  have always := stepsMeet_true take disk steps
  apply runSteps_induction
    (fun (state : Disk) => state.entry location = some .directory) _ always
    reached isDirectory
  intro state step next _ taken
  exact entry_directory_take taken

/-- A directory that was made is there, and so is its parent. -/
theorem entry_of_createDirectory_mem {disk final : Disk}
    {steps : List DiskStep} {location : Location}
    (reached : disk.run steps = some final)
    (made : .createDirectory location ∈ steps) :
    final.entry location = some .directory ∧
      final.entry location.dropLast = some .directory := by
  obtain ⟨before, after, rfl⟩ := List.append_of_mem made
  obtain ⟨middle, -, rest⟩ := runSteps_append_eq_some.mp reached
  obtain ⟨next, taken, finished⟩ := runSteps_cons_eq_some.mp rest
  obtain ⟨able, -⟩ := Option.ite_none_right_eq_some.mp taken
  have own : next.entry location = some .directory := by
    rw [(take_eq_some taken).2]
    exact if_pos rfl
  have parent := entry_directory_take taken able.1.1
  exact ⟨entry_directory_run finished own, entry_directory_run finished parent⟩

end Disk

namespace Disk

/-- Everything is in a directory. -/
def IsTree (disk : Disk) : Prop :=
  ∀ location name, (disk.entry (location ++ [name])).isSome = true →
    disk.entry location = some .directory

/-- Where something new appears, there is a directory above. -/
private theorem parent_of_take {disk next : Disk} {step : DiskStep}
    {location : Location} (taken : disk.take step = some next)
    (missing : disk.entry location = none)
    (present : (next.entry location).isSome = true) :
    disk.entry location.dropLast = some .directory := by
  rw [(take_eq_some taken).2, missing] at present
  cases step with
  | createDirectory target =>
      obtain ⟨able, -⟩ := Option.ite_none_right_eq_some.mp taken
      rw [DiskStep.effect] at present
      split at present
      · rename_i same
        rw [← same]
        exact able.1.1
      · cases present
  | createFile target =>
      obtain ⟨able, -⟩ := Option.ite_none_right_eq_some.mp taken
      rw [DiskStep.effect] at present
      split at present
      · rename_i same
        rw [← same]
        exact able.1.1
      · cases present
  | append target text =>
      rw [DiskStep.effect, Option.map_none, ite_self] at present
      cases present
  | failed =>
      cases present

theorem IsTree.run {disk final : Disk} {steps : List DiskStep}
    (isTree : disk.IsTree) (reached : disk.run steps = some final) :
    final.IsTree := by
  have always := stepsMeet_true take disk steps
  apply runSteps_induction IsTree _ always reached isTree
  intro state step next _ taken tree location name present
  apply entry_directory_take taken
  cases missing : state.entry (location ++ [name]) with
  | some entry =>
      exact tree location name (by rw [missing]; rfl)
  | none =>
      have parent := parent_of_take taken missing present
      rwa [List.dropLast_concat] at parent

/-- What was created is in a directory. -/
theorem entry_of_createFile_mem {disk final : Disk} {steps : List DiskStep}
    {location : Location} (reached : disk.run steps = some final)
    (created : .createFile location ∈ steps) :
    final.entry location.dropLast = some .directory := by
  obtain ⟨before, after, rfl⟩ := List.append_of_mem created
  obtain ⟨middle, -, rest⟩ := runSteps_append_eq_some.mp reached
  obtain ⟨next, taken, finished⟩ := runSteps_cons_eq_some.mp rest
  obtain ⟨able, -⟩ := Option.ite_none_right_eq_some.mp taken
  exact entry_directory_run finished (entry_directory_take taken able.1.1)

/-- `create_dir_all` succeeds when no file is in the way. -/
theorem exists_run_createDirectories {disk : Disk} {location : Location}
    (accepted : ∀ name ∈ location, disk.accepts name = true)
    (free : ∀ ancestor, ancestor <+: location →
      disk.content ancestor = none) :
    ∃ next, disk.run (location.inits.map .createDirectory) = some next := by
  induction location using List.reverseRecOn with
  | nil =>
      have able : disk.Permits [] ∧ disk.content [] = none :=
        ⟨⟨rfl, fun name last => by cases last⟩, free [] (List.prefix_refl _)⟩
      refine ⟨disk.insert [] .directory, ?_⟩
      rw [List.inits, List.map_singleton, run, runSteps, take,
        if_pos able]
      rfl
  | append_singleton parent name inductionHypothesis =>
      obtain ⟨next, reached⟩ := inductionHypothesis
        (fun other among => accepted other (List.mem_append_left _ among))
        (fun ancestor start =>
          free ancestor (start.trans (List.prefix_append _ _)))
      have made : DiskStep.createDirectory parent ∈
          parent.inits.map .createDirectory :=
        List.mem_map_of_mem ((List.mem_inits _ _).mpr (List.prefix_refl _))
      have own : next.content (parent ++ [name]) = none := by
        have before := free (parent ++ [name]) (List.prefix_refl _)
        have unchanged := entry_run reached (parent ++ [name])
        rw [effects_createDirectories, if_neg] at unchanged
        · rw [content, unchanged]
          exact before
        · rw [List.mem_inits]
          intro shorter
          have bound := shorter.length_le
          rw [List.length_append, List.length_singleton] at bound
          exact Nat.not_succ_le_self _ bound
      have able : next.Permits (parent ++ [name]) ∧
          next.content (parent ++ [name]) = none := by
        refine ⟨⟨?_, ?_⟩, own⟩
        · rw [List.dropLast_concat]
          exact (entry_of_createDirectory_mem reached made).1
        · intro last isLast
          rw [List.getLast?_concat] at isLast
          cases isLast
          rw [accepts_run reached]
          exact accepted name (List.mem_append_right _ List.mem_cons_self)
      refine ⟨next.insert (parent ++ [name]) .directory, ?_⟩
      rw [List.inits_append, List.map_append]
      refine runSteps_append_eq_some.mpr ⟨next, reached, ?_⟩
      have last : (([name] : Location).inits.tail.map
          fun rest => parent ++ rest) = [parent ++ [name]] :=
        rfl
      rw [last, List.map_singleton, runSteps, take, if_pos able]
      rfl

/-- What was made or created is accepted. -/
theorem accepts_of_mem {disk final : Disk} {steps : List DiskStep}
    {location : Location} {name : FileName}
    (reached : disk.run steps = some final)
    (made : .createDirectory (location ++ [name]) ∈ steps) :
    disk.accepts name = true := by
  obtain ⟨before, after, rfl⟩ := List.append_of_mem made
  obtain ⟨middle, start, rest⟩ := runSteps_append_eq_some.mp reached
  obtain ⟨next, taken, -⟩ := runSteps_cons_eq_some.mp rest
  obtain ⟨able, -⟩ := Option.ite_none_right_eq_some.mp taken
  rw [← accepts_run start]
  exact able.1.2 name (by rw [List.getLast?_concat]; rfl)

/-- A directory can be listed. -/
theorem exists_lists (disk : Disk) (directory : Location) :
    ∃ names, disk.Lists directory names := by
  classical
  let below : Location → Option FileName := fun location =>
    if location.dropLast = directory then location.getLast? else none
  refine ⟨(disk.entries.keys.toList.filterMap below).dedup,
    List.nodup_dedup _, ?_⟩
  intro name
  have proper : directory ++ [name] ≠ [] := by simp
  rw [List.mem_dedup, List.mem_filterMap, entry, if_neg proper,
    Finmap.lookup_isSome]
  constructor
  · rintro ⟨location, member, found⟩
    obtain ⟨parent, last⟩ := Option.ite_none_right_eq_some.mp found
    have shape : directory ++ [name] = location := by
      rw [← parent]
      exact List.dropLast_append_getLast? name last
    rw [shape]
    exact Finmap.mem_keys.mp (Finset.mem_toList.mp member)
  · intro member
    refine ⟨directory ++ [name],
      Finset.mem_toList.mpr (Finmap.mem_keys.mpr member), ?_⟩
    simp [below]

end Disk

/-! ## Stopping half way -/

/-- The steps that have been executed when `steps` stops: before a step,
because of a crash or an error, or in the middle of writing a text. -/
inductive Stopped : List DiskStep → List DiskStep → Prop
  | here (steps) : Stopped steps []
  | torn {location written text rest} (partly : written <+: text) :
      Stopped (.append location text :: rest) [.append location written]
  | after (step) {rest executed} (later : Stopped rest executed) :
      Stopped (step :: rest) (step :: executed)

namespace Stopped

theorem append_cases {first second executed : List DiskStep}
    (stopped : Stopped (first ++ second) executed) :
    Stopped first executed ∨
      ∃ later, executed = first ++ later ∧ Stopped second later := by
  induction first generalizing executed with
  | nil =>
      exact Or.inr ⟨executed, rfl, stopped⟩
  | cons step rest inductionHypothesis =>
      cases stopped with
      | here =>
          exact Or.inl (here _)
      | torn partly =>
          exact Or.inl (torn partly)
      | after step later =>
          rcases inductionHypothesis later with inside | ⟨last, rfl, outside⟩
          · exact Or.inl (after step inside)
          · exact Or.inr ⟨last, rfl, outside⟩

/-- Any number of steps can have been executed. -/
theorem take (count : Nat) (steps : List DiskStep) :
    Stopped steps (steps.take count) := by
  induction steps generalizing count with
  | nil =>
      rw [List.take_nil]
      exact here []
  | cons step rest inductionHypothesis =>
      cases count with
      | zero =>
          exact here _
      | succ count =>
          exact after step (inductionHypothesis count)

theorem self (steps : List DiskStep) : Stopped steps steps := by
  have whole := take steps.length steps
  rwa [List.take_length] at whole

/-- What was executed was planned, up to the rest of a torn text. -/
theorem mem_or_torn {steps executed : List DiskStep}
    (stopped : Stopped steps executed) {step : DiskStep}
    (among : step ∈ executed) :
    step ∈ steps ∨ ∃ location written text,
      step = .append location written ∧ .append location text ∈ steps := by
  induction stopped with
  | here =>
      cases among
  | torn partly =>
      exact Or.inr ⟨_, _, _, List.mem_singleton.mp among, List.mem_cons_self⟩
  | after first later inductionHypothesis =>
      rcases List.mem_cons.mp among with rfl | inside
      · exact Or.inl List.mem_cons_self
      rcases inductionHypothesis inside with member |
        ⟨location, written, text, same, member⟩
      · exact Or.inl (List.mem_cons_of_mem first member)
      · exact Or.inr ⟨location, written, text, same,
          List.mem_cons_of_mem first member⟩

/-- Every executed step changes what some planned step would have changed. -/
theorem exists_target_eq {steps executed : List DiskStep}
    (stopped : Stopped steps executed) {step : DiskStep}
    (among : step ∈ executed) :
    ∃ planned ∈ steps, planned.target = step.target := by
  rcases stopped.mem_or_torn among with member |
    ⟨location, written, text, rfl, member⟩
  · exact ⟨step, member, rfl⟩
  · exact ⟨_, member, rfl⟩

end Stopped

end DynaRust.Foundation
