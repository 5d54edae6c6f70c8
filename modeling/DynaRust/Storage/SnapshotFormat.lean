import DynaRust.Storage.Persistance

/-!
# The snapshot format

A record line is read back when nothing in its key looks like the format.
-/

namespace DynaRust.Storage

open DynaRust.Foundation

/-! ## Record lines -/

/-- A key without separator, line feed or surrounding blanks. -/
def CleanKey (key : String) : Prop :=
  '=' ∉ key.toList ∧ '\n' ∉ key.toList ∧ trim key.toList = key.toList

instance (key : String) : Decidable (CleanKey key) :=
  inferInstanceAs (Decidable (_ ∧ _))

/-- `serde_json` reads back the record it wrote, and wrote it as an object on
one line. -/
structure Json.Writes (json : Json) (text : Text)
    (record : VersionedValue) : Prop where
  reads : json.readValue text = some record
  shape : ∃ middle, text = '{' :: (middle ++ ['}'])
  oneLine : '\n' ∉ text

variable {cipher : Cipher} {json : Json} {chance : Chance}

theorem loadRecord_recordLine {key : String} {text : Text}
    {record : VersionedValue} (clean : CleanKey key)
    (writes : json.Writes text record) (records : Table) :
    loadRecord json records (recordLine key text) =
      records.insert key record := by
  obtain ⟨noSeparator, -, trimmed⟩ := clean
  have absent : '=' ∉ key.toList ++ [' '] := by
    rw [List.mem_append, not_or]
    exact ⟨noSeparator, by decide⟩
  have value : trim (' ' :: text) = text := by
    obtain ⟨middle, shape⟩ := writes.shape
    rw [shape]
    exact trim_space_cons (by decide) (by decide)
  rw [loadRecord, recordLine, splitOnce_append absent]
  simp only [value, writes.reads, trim_append_space trimmed,
    String.ofList_toList]

theorem isLine_recordLine {key : String} {text : Text}
    {record : VersionedValue} (clean : CleanKey key)
    (writes : json.Writes text record) : IsLine (recordLine key text) := by
  obtain ⟨-, noFeed, -⟩ := clean
  constructor
  · have oneLine := writes.oneLine
    simp [recordLine, noFeed, oneLine]
  · obtain ⟨middle, shape⟩ := writes.shape
    have closing : recordLine key text =
        (key.toList ++ [' '] ++ '=' :: ' ' :: '{' :: middle) ++ ['}'] := by
      simp [recordLine, shape]
    rw [closing, List.getLast?_concat]
    decide

/-- A record line as `save_to_cold` writes it, with its line feed. -/
def Terminated (line : Text) : Prop :=
  ∃ body, line = body ++ ['\n']

theorem Terminated.ne_nil {line : Text} (terminated : Terminated line) :
    line ≠ [] := by
  obtain ⟨body, rfl⟩ := terminated
  exact List.append_ne_nil_of_right_ne_nil body (List.cons_ne_nil '\n' [])

theorem terminated_of_mem_recordLines {chance : Chance} {tableName : String}
    {rows : Rows} {line : Text}
    (member : line ∈ recordLines chance tableName rows) : Terminated line := by
  obtain ⟨row, -, rfl⟩ := List.mem_map.mp member
  exact ⟨recordLine row.1 (chance.json tableName row.1 row.2), rfl⟩

/-! ## Chunks -/

/-- The chunk loop groups the lines; it splits none and loses none. -/
theorem chunkLoop_groups (limit : Nat) {pending lines : List Text}
    (nonempty : ∀ line ∈ pending ++ lines, line ≠ []) :
    ∃ groups : List (List Text), groups.flatten = pending ++ lines ∧
      chunkLoop limit pending.flatten lines = groups.map List.flatten := by
  induction lines generalizing pending with
  | nil =>
      rw [List.append_nil] at nonempty ⊢
      rw [chunkLoop]
      split
      · rename_i empty
        have none : pending = [] := by
          cases pending with
          | nil =>
              rfl
          | cons line rest =>
              have both := List.append_eq_nil_iff.mp empty
              exact absurd both.1 (nonempty line List.mem_cons_self)
        exact ⟨[], none.symm, rfl⟩
      · exact ⟨[pending], by simp, rfl⟩
  | cons line rest inductionHypothesis =>
      have grown : pending.flatten ++ line = (pending ++ [line]).flatten := by
        simp
      rw [List.append_cons] at nonempty ⊢
      rw [chunkLoop, grown]
      split
      · have later : ∀ other ∈ [] ++ rest, other ≠ [] := fun other member =>
          nonempty other (List.mem_append_right _ member)
        obtain ⟨groups, flat, same⟩ := inductionHypothesis later
        refine ⟨(pending ++ [line]) :: groups, ?_, ?_⟩
        · rw [List.flatten_cons, flat, List.nil_append]
        · rw [List.map_cons, ← same]
          rfl
      · exact inductionHypothesis nonempty

/-- The records that the plaintext of some chunks gives. -/
def readBack (json : Json) (chunks : List Text) : Table :=
  chunks.foldl (loadChunk json) ∅

/-- Terminated lines in one text are read one after the other. -/
theorem loadChunk_flatten {lines : List Text}
    (terminated : ∀ line ∈ lines, Terminated line) (records : Table) :
    loadChunk json records lines.flatten =
      lines.foldl (loadChunk json) records := by
  induction lines generalizing records with
  | nil =>
      rfl
  | cons line rest inductionHypothesis =>
      obtain ⟨body, rfl⟩ := terminated line List.mem_cons_self
      have later := inductionHypothesis fun other member =>
        terminated other (List.mem_cons_of_mem _ member)
      rw [List.flatten_cons, List.foldl_cons, ← later, loadChunk,
        splitLines_append_feed, List.foldl_append]
      rfl

/-- It does not matter how the lines are grouped. -/
theorem readBack_groups {groups : List (List Text)} {lines : List Text}
    (flat : groups.flatten = lines)
    (terminated : ∀ line ∈ lines, Terminated line) :
    readBack json (groups.map List.flatten) =
      readBack json [lines.flatten] := by
  have whole : readBack json [lines.flatten] =
      lines.foldl (loadChunk json) ∅ :=
    loadChunk_flatten terminated ∅
  have byGroup : ∀ records : Table,
      (groups.map List.flatten).foldl (loadChunk json) records =
        groups.foldl (fun records group =>
          group.foldl (loadChunk json) records) records := by
    rw [← flat] at terminated
    clear flat whole
    induction groups with
    | nil =>
        exact fun _ => rfl
    | cons group rest inductionHypothesis =>
        intro records
        have terminatedGroup : ∀ line ∈ group, Terminated line :=
          fun line member => terminated line
            (List.mem_append_left rest.flatten member)
        have terminatedRest : ∀ line ∈ rest.flatten, Terminated line :=
          fun line member => terminated line
            (List.mem_append_right group member)
        rw [List.map_cons, List.foldl_cons, List.foldl_cons,
          loadChunk_flatten terminatedGroup,
          inductionHypothesis terminatedRest]
  rw [whole, readBack, byGroup, ← flat, List.foldl_flatten]

private theorem cleanKey_loadRecord {records : Table} {line : Text}
    (noFeed : '\n' ∉ line) (clean : ∀ key ∈ records, CleanKey key) :
    ∀ key ∈ loadRecord json records line, CleanKey key := by
  intro key member
  rw [loadRecord] at member
  split at member
  · exact clean key member
  · rename_i first rest split
    split at member
    · rcases Finmap.mem_insert.mp member with rfl | earlier
      · obtain ⟨noSeparator, shape⟩ := splitOnce_eq_some split
        have inside : first ⊆ line := by
          rw [shape]
          exact List.subset_append_left _ _
        rw [CleanKey, String.toList_ofList]
        exact ⟨fun found => noSeparator (mem_of_mem_trim found),
          fun found => noFeed (inside (mem_of_mem_trim found)),
          trim_trim first⟩
      · exact clean key earlier
    · exact clean key member

/-- Whatever is read back has clean keys. -/
theorem cleanKey_of_mem_readBack {chunks : List Text} :
    ∀ key ∈ readBack json chunks, CleanKey key := by
  apply List.foldlRecOn chunks (loadChunk json)
    (motive := fun records : Table => ∀ key ∈ records, CleanKey key)
  · intro key member
    exact absurd member Finmap.notMem_empty
  · intro records clean chunk _
    apply List.foldlRecOn (splitLines chunk) (loadRecord json)
      (motive := fun records : Table => ∀ key ∈ records, CleanKey key) clean
    intro current cleanCurrent line member
    exact cleanKey_loadRecord (noFeed_of_mem_splitLines member) cleanCurrent

/-- Lines with clean keys are all inserted. -/
private theorem foldl_loadRecord_rows {tableName : String}
    {entries : List (Sigma fun _ : String => VersionedValue)}
    (clean : ∀ row ∈ entries, CleanKey row.1)
    (writes : ∀ row ∈ entries,
      json.Writes (chance.json tableName row.1 row.2) row.2)
    (records : Table) :
    (entries.map fun row => recordLine row.1
        (chance.json tableName row.1 row.2)).foldl (loadRecord json) records =
      HashMap.updateEntries (fun _ record => record) entries records := by
  induction entries generalizing records with
  | nil =>
      rfl
  | cons row rest inductionHypothesis =>
      rw [List.map_cons, List.foldl_cons,
        loadRecord_recordLine (clean row List.mem_cons_self)
          (writes row List.mem_cons_self),
        inductionHypothesis
          (fun other among => clean other (List.mem_cons_of_mem row among))
          (fun other among => writes other (List.mem_cons_of_mem row among)),
        HashMap.updateEntries]

/-- A table whose keys are clean is read back from its chunks. -/
theorem readBack_chunks {tableName : String} {rows : Rows}
    (clean : ∀ key ∈ rows, CleanKey key)
    (writes : ∀ key record, rows.lookup key = some record →
      json.Writes (chance.json tableName key record) record) :
    readBack json (chunks chance tableName rows) = rows.toFinmap := by
  have cleanRow : ∀ row ∈ rows.entries, CleanKey row.1 := fun row among =>
    clean row.1 (List.mem_map_of_mem among)
  have writesRow : ∀ row ∈ rows.entries,
      json.Writes (chance.json tableName row.1 row.2) row.2 :=
    fun row among => writes row.1 row.2 (AList.mem_lookup_iff.mpr among)
  have terminated : ∀ line ∈ [] ++ recordLines chance tableName rows,
      Terminated line :=
    fun line among => terminated_of_mem_recordLines among
  obtain ⟨groups, flat, same⟩ := chunkLoop_groups chunkSizeLimit
    fun line among => (terminated line among).ne_nil
  have allLines : ∀ line ∈ rows.entries.map fun row => recordLine row.1
      (chance.json tableName row.1 row.2), IsLine line := by
    intro line among
    obtain ⟨row, member, rfl⟩ := List.mem_map.mp among
    exact isLine_recordLine (cleanRow row member) (writesRow row member)
  have lines : splitLines (recordLines chance tableName rows).flatten =
      rows.entries.map fun row => recordLine row.1
        (chance.json tableName row.1 row.2) := by
    have whole := splitLines_terminated allLines
    rw [List.flatMap_def, List.map_map] at whole
    exact whole
  rw [chunks, ← List.flatten_nil, same, readBack_groups flat terminated,
    List.nil_append, readBack, List.foldl_cons, List.foldl_nil, loadChunk,
    lines, foldl_loadRecord_rows cleanRow writesRow]
  apply Finmap.ext_lookup
  intro key
  rw [HashMap.lookup_updateEntries _ rows.nodupKeys, Finmap.lookup_empty,
    Option.or_none, Option.map_id', Finmap.lookup_toFinmap]
  rfl

/-! ## Encrypted lines -/

/-- Results that all are there are related to what they were made from. -/
theorem forall₂_of_mapIdx {relation : Text → Text → Prop}
    {texts written : List Text} {write : Nat → Text → Option Text}
    (related : ∀ (index : Nat) text result, texts[index]? = some text →
      write index text = some result → relation text result)
    (whole : texts.mapIdx write = written.map some) :
    List.Forall₂ relation texts written := by
  have sameLength : texts.length = written.length := by
    have lengths := congrArg List.length whole
    rwa [List.length_mapIdx, List.length_map] at lengths
  apply List.forall₂_iff_get.mpr
  refine ⟨sameLength, ?_⟩
  intro index inTexts inWritten
  have result := congrArg (fun results => results[index]?) whole
  simp only [List.getElem?_mapIdx, List.getElem?_map,
    List.getElem?_eq_getElem inTexts, List.getElem?_eq_getElem inWritten,
    Option.map_some] at result
  exact related index _ _ (List.getElem?_eq_getElem inTexts)
    (Option.some.inj result)

/-- Lines that restore their chunks are read as these chunks. -/
theorem loadSnapshot_restores {plain encrypted : List Text}
    (restores : List.Forall₂ cipher.Restores plain encrypted)
    (rest : List Text) (records : Table) :
    loadSnapshot cipher json records (encrypted ++ rest) =
      loadSnapshot cipher json (plain.foldl (loadChunk json) records) rest := by
  induction restores generalizing records with
  | nil =>
      rfl
  | cons head _ inductionHypothesis =>
      have trimmed := trim_eq_self_of_forall head.solid
      rw [List.cons_append, loadSnapshot, trimmed, if_neg head.nonempty,
        head.decrypts]
      exact inductionHypothesis _

end DynaRust.Storage
