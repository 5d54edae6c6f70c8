import DynaRust.Storage.DataDirectory

/-!
# Interrupted saves

`save_to_cold` truncates each snapshot before it writes it again, so a stop in
between can leave a part of the new snapshot and nothing of the old one.
-/

namespace DynaRust.Storage

open DynaRust.Foundation

variable {cipher : Cipher} {json : Json} {chance : Chance} {base : Location}

/-! ## How far the snapshot of a table got -/

/-- `text` is made of the lines of the first `count` chunks and a beginning
`tail` of the next line. -/
structure Progress (all : List (Option Text)) (count : Nat)
    (written : List Text) (tail text : Text) : Prop where
  whole : all.take count = written.map some
  partly : tail = [] ∨
    ∃ next, all[count]? = some (some next) ∧ tail <+: next
  shape : text = storedText written ++ tail

private theorem Progress.cons {all : List (Option Text)} {count : Nat}
    {written : List Text} {tail text : Text}
    (progress : Progress all count written tail text) (line : Text) :
    Progress (some line :: all) (count + 1) (line :: written) tail
      (line ++ '\n' :: text) where
  whole := by
    rw [List.take_succ_cons, progress.whole, List.map_cons]
  partly := by
    rw [List.getElem?_cons_succ]
    exact progress.partly
  shape := by
    rw [progress.shape, storedText, storedText, List.flatMap_cons,
      List.append_assoc, List.append_assoc]
    rfl

private theorem progress_none (all : List (Option Text)) :
    Progress all 0 [] [] [] where
  whole := rfl
  partly := Or.inl rfl
  shape := rfl

private theorem progress_tail {all : List (Option Text)} {line tail : Text}
    (start : tail <+: line) : Progress (some line :: all) 0 [] tail tail where
  whole := rfl
  partly := Or.inr ⟨line, rfl, start⟩
  shape := rfl

private theorem effects_append_file (file : Location) (content text : Text)
    (rest : List DiskStep) :
    effects file (some (.file content)) (.append file text :: rest) =
      effects file (some (.file (content ++ text))) rest := by
  rw [effects_cons, DiskStep.effect, if_pos rfl]
  rfl

theorem progress_of_stopped {file : Location} {all : List (Option Text)}
    {executed : List DiskStep} (stopped : Stopped (chunkSteps file all) executed)
    (content : Text) :
    ∃ count written tail text, Progress all count written tail text ∧
      effects file (some (.file content)) executed =
        some (.file (content ++ text)) := by
  induction all generalizing executed content with
  | nil =>
      cases stopped
      exact ⟨0, [], [], [], progress_none [], by simp⟩
  | cons encrypted rest inductionHypothesis =>
      cases encrypted with
      | none =>
          refine ⟨0, [], [], [], progress_none _, ?_⟩
          rw [List.append_nil]
          apply effects_of_forall_target_ne
          intro step among
          obtain ⟨planned, member, same⟩ := stopped.exists_target_eq among
          rw [← same, List.mem_singleton.mp member]
          exact nofun
      | some line =>
          cases stopped with
          | here =>
              exact ⟨0, [], [], [], progress_none _, by simp⟩
          | torn start =>
              exact ⟨0, [], _, _, progress_tail start,
                effects_append_file file content _ []⟩
          | after _ later =>
              rw [effects_append_file]
              cases later with
              | here =>
                  exact ⟨0, [], line, line,
                    progress_tail (List.prefix_refl line), rfl⟩
              | torn start =>
                  rename_i feed
                  rcases List.prefix_cons_iff.mp start with rfl | ⟨_, rfl, empty⟩
                  · refine ⟨0, [], line, line,
                      progress_tail (List.prefix_refl line), ?_⟩
                    rw [effects_append_file, List.append_nil]
                    rfl
                  · cases List.prefix_nil.mp empty
                    refine ⟨1, [line], [], line ++ ['\n'],
                      (progress_none rest).cons line, ?_⟩
                    rw [effects_append_file, List.append_assoc]
                    rfl
              | after _ last =>
                  rw [effects_append_file]
                  obtain ⟨count, written, tail, text, progress, same⟩ :=
                    inductionHypothesis last (content ++ line ++ ['\n'])
                  refine ⟨count + 1, line :: written, tail, line ++ '\n' :: text,
                    progress.cons line, ?_⟩
                  rw [same]
                  simp

/-! ## What a stopped save leaves in a snapshot -/

/-- The snapshot in `folder` has been truncated, and holds what a table with
this folder got to. -/
def Rewritten (cipher : Cipher) (chance : Chance) (base : Location)
    (entries : List (Sigma fun _ : String => Rows)) (folder : Location)
    (executed : List DiskStep) (result : Option Entry) : Prop :=
  .createFile (folder ++ [storageDb]) ∈ executed ∧
    ∃ table ∈ entries, base.join table.1.toList = folder ∧
      ∃ count written tail text,
        Progress (encryptedChunks cipher chance table.1 table.2) count
            written tail text ∧
          result = some (.file text)

private theorem storage_ne_wal (first second : Location) :
    first ++ [storageDb] ≠ second ++ [walLog] := by
  intro same
  cases List.append_inj_right' same rfl

/-- The two files of a table are all that it writes behind the directories. -/
theorem target_of_mem_files {folder : Location}
    {all : List (Option Text)} {step : DiskStep}
    (among : step ∈ .createFile (folder ++ [storageDb]) ::
      (chunkSteps (folder ++ [storageDb]) all ++
        [.createFile (folder ++ [walLog])])) :
    step.target = some (folder ++ [storageDb]) ∨
      step.target = some (folder ++ [walLog]) ∨ step.target = none := by
  have chunk : ∀ step ∈ chunkSteps (folder ++ [storageDb]) all,
      step.target = some (folder ++ [storageDb]) ∨ step.target = none := by
    clear among
    induction all with
    | nil =>
        exact fun _ among => absurd among List.not_mem_nil
    | cons encrypted rest inductionHypothesis =>
        intro step among
        cases encrypted with
        | none =>
            rw [List.mem_singleton.mp among]
            exact Or.inr rfl
        | some line =>
            rcases List.mem_cons.mp among with rfl | later
            · exact Or.inl rfl
            rcases List.mem_cons.mp later with rfl | last
            · exact Or.inl rfl
            · exact inductionHypothesis step last
  rcases List.mem_cons.mp among with rfl | later
  · exact Or.inl rfl
  rcases List.mem_append.mp later with inside | last
  · exact (chunk step inside).imp id Or.inr
  · rw [List.mem_singleton.mp last]
    exact Or.inr (Or.inl rfl)

private theorem storage_of_stopped_files {own folder : Location}
    {all : List (Option Text)} {executed : List DiskStep}
    (stopped : Stopped (.createFile (own ++ [storageDb]) ::
      (chunkSteps (own ++ [storageDb]) all ++
        [.createFile (own ++ [walLog])])) executed)
    (entry : Option Entry) :
    (.createFile (folder ++ [storageDb]) ∉ executed ∧
        effects (folder ++ [storageDb]) entry executed = entry) ∨
      .createFile (folder ++ [storageDb]) ∈ executed ∧ own = folder ∧
        ∃ count written tail text, Progress all count written tail text ∧
          effects (folder ++ [storageDb]) entry executed =
            some (.file text) := by
  by_cases same : own = folder
  · subst same
    cases stopped with
    | here =>
        exact Or.inl ⟨List.not_mem_nil, rfl⟩
    | after _ more =>
        refine Or.inr ⟨List.mem_cons_self, rfl, ?_⟩
        rw [effects_cons, DiskStep.effect, if_pos rfl]
        rcases more.append_cases with inside | ⟨last, rfl, wal⟩
        · obtain ⟨count, written, tail, text, progress, result⟩ :=
            progress_of_stopped inside []
          exact ⟨count, written, tail, text, progress, result⟩
        · obtain ⟨count, written, tail, text, progress, result⟩ :=
            progress_of_stopped (Stopped.self _) []
          refine ⟨count, written, tail, text, progress, ?_⟩
          rw [effects_append, result, effects_of_forall_target_ne]
          · rfl
          intro step among hit
          obtain ⟨other, member, target⟩ := wal.exists_target_eq among
          rw [List.mem_singleton.mp member, hit] at target
          exact storage_ne_wal _ _ (Option.some.inj target).symm
  · have elsewhere : ∀ step ∈ executed,
        step.target ≠ some (folder ++ [storageDb]) := by
      intro step among hit
      obtain ⟨other, member, target⟩ := stopped.exists_target_eq among
      rw [hit] at target
      rcases target_of_mem_files member with storage | wal | none
      · rw [storage] at target
        exact same (List.append_inj_left' (Option.some.inj target) rfl)
      · rw [wal] at target
        exact storage_ne_wal _ _ (Option.some.inj target).symm
      · rw [none] at target
        cases target
    exact Or.inl ⟨fun among => elsewhere _ among rfl,
      effects_of_forall_target_ne elsewhere entry⟩

private theorem storage_of_stopped_saveTable {tableName : String} {rows : Rows}
    {folder : Location} {executed : List DiskStep}
    (stopped : Stopped (saveTable cipher chance base tableName rows) executed)
    (noDirectory : .createDirectory (folder ++ [storageDb]) ∉ executed)
    (entry : Option Entry) :
    (.createFile (folder ++ [storageDb]) ∉ executed ∧
        effects (folder ++ [storageDb]) entry executed = entry) ∨
      Rewritten cipher chance base [⟨tableName, rows⟩] folder executed
        (effects (folder ++ [storageDb]) entry executed) := by
  have directories (made : List DiskStep)
      (onlyMade : ∀ step ∈ made, ∃ location,
        step = .createDirectory location)
      (inside : made ⊆ executed) :
      .createFile (folder ++ [storageDb]) ∉ made ∧
        effects (folder ++ [storageDb]) entry made = entry := by
    constructor
    · intro among
      obtain ⟨location, same⟩ := onlyMade _ among
      cases same
    · apply effects_of_forall_target_ne
      intro step among same
      obtain ⟨location, rfl⟩ := onlyMade step among
      cases Option.some.inj same
      exact noDirectory (inside among)
  have planned : ∀ step ∈ (base.visited tableName.toList).map
      DiskStep.createDirectory, ∃ location,
        step = .createDirectory location := by
    intro step among
    obtain ⟨location, -, rfl⟩ := List.mem_map.mp among
    exact ⟨location, rfl⟩
  rw [saveTable] at stopped
  rcases stopped.append_cases with early | ⟨later, rfl, files⟩
  · refine Or.inl (directories executed ?_ (List.Subset.refl _))
    intro step among
    rcases early.mem_or_torn among with member |
      ⟨location, written, text, rfl, member⟩
    · exact planned step member
    · obtain ⟨other, same⟩ := planned _ member
      cases same
  · obtain ⟨notMade, unchanged⟩ :=
      directories _ planned (List.subset_append_left _ _)
    rw [effects_append, unchanged]
    rcases storage_of_stopped_files files entry with ⟨absent, kept⟩ |
      ⟨created, own, progress⟩
    · refine Or.inl ⟨?_, kept⟩
      rw [List.mem_append, not_or]
      exact ⟨notMade, absent⟩
    · exact Or.inr ⟨List.mem_append_right _ created, ⟨tableName, rows⟩,
        List.mem_cons_self, own, progress⟩

/-- A snapshot that no directory has taken the place of is untouched, or it
was truncated and holds what some table with its folder got to. -/
theorem storage_of_stopped {entries : List (Sigma fun _ : String => Rows)}
    {folder : Location} {executed : List DiskStep}
    (stopped : Stopped (entries.flatMap fun table =>
      saveTable cipher chance base table.1 table.2) executed)
    (noDirectory : .createDirectory (folder ++ [storageDb]) ∉ executed)
    (entry : Option Entry) :
    (.createFile (folder ++ [storageDb]) ∉ executed ∧
        effects (folder ++ [storageDb]) entry executed = entry) ∨
      Rewritten cipher chance base entries folder executed
        (effects (folder ++ [storageDb]) entry executed) := by
  induction entries generalizing executed entry with
  | nil =>
      cases stopped
      exact Or.inl ⟨List.not_mem_nil, rfl⟩
  | cons table rest inductionHypothesis =>
      rw [List.flatMap_cons] at stopped
      rcases stopped.append_cases with inside | ⟨later, rfl, after⟩
      · refine (storage_of_stopped_saveTable inside noDirectory entry).imp id ?_
        rintro ⟨created, own, among, progress⟩
        rw [List.mem_singleton.mp among] at progress
        exact ⟨created, table, List.mem_cons_self, progress⟩
      rw [List.mem_append, not_or] at noDirectory
      rw [effects_append]
      rcases inductionHypothesis after noDirectory.2
          (effects (folder ++ [storageDb]) entry
            (saveTable cipher chance base table.1 table.2)) with
        ⟨absent, kept⟩ | ⟨created, own, among, progress⟩
      · rw [kept, List.mem_append]
        rcases storage_of_stopped_saveTable (Stopped.self _) noDirectory.1
            entry with ⟨absentFirst, keptFirst⟩ |
          ⟨created, own, among, progress⟩
        · exact Or.inl ⟨not_or.mpr ⟨absentFirst, absent⟩, keptFirst⟩
        · rw [List.mem_singleton.mp among] at progress
          exact Or.inr ⟨List.mem_append_left _ created, table,
            List.mem_cons_self, progress⟩
      · exact Or.inr ⟨List.mem_append_right _ created, own,
          List.mem_cons_of_mem table among, progress⟩

end DynaRust.Storage
