import DynaRust.Foundation.Retention
import DynaRust.Foundation.Runs
import DynaRust.Storage.Nonces
import DynaRust.Storage.Store
import Mathlib.Data.List.Sort

/-!
# Hourly snapshots

The background task of `snapshoting.rs`: every tick writes the encrypted store
to a file of its own and removes old files.  Writing, listing and removing can
fail at any tick, and the task goes on.
-/

namespace DynaRust.Storage

open DynaRust.Foundation

/-! ## The folder -/

/-- What `read_dir` and `metadata` tell of an entry of `./snapshots`, and its
content. -/
structure SnapshotFile where
  modified : Nat
  content : Text
  deriving DecidableEq

abbrev SnapshotFolder := HashMap Text SnapshotFile

def snapshotPrefix : Text := "snapshot_".toList

def snapshotSuffix : Text := ".json.enc".toList

/-- `format!("snapshot_{}.json.enc", ts)`. -/
def snapshotName (timestamp : Nat) : Text :=
  snapshotPrefix ++ (Nat.toDigits 10 timestamp ++ snapshotSuffix)

/-- `name.starts_with("snapshot_") && name.ends_with(".json.enc")`. -/
def isSnapshot (name : Text) : Bool :=
  snapshotPrefix.isPrefixOf name && snapshotSuffix.isSuffixOf name

/-- `str::parse::<usize>`. -/
def parseUsize (text : Text) : Option Nat :=
  let digits := match text with
    | '+' :: rest => rest
    | _ => text
  if digits ≠ [] ∧ digits.all Char.isDigit = true ∧
      Nat.ofDigitChars 10 digits 0 < 2 ^ 64 then
    some (Nat.ofDigitChars 10 digits 0)
  else none

/-- How many snapshots are kept under a value of `SNAP_LIMIT`. -/
def snapLimit (setting : Option Text) : Nat :=
  (setting.bind parseUsize).getD 100

/-! ## Cleaning -/

/-- What the file system does while the folder is cleaned: the order of
`read_dir`, whose metadata can be read, and what can be removed. -/
structure Cleaning where
  listing : AList fun _ : Text => SnapshotFile
  readable : Text → Bool
  removable : Text → Bool

/-- The pairs pushed to `snaps`. -/
def Cleaning.snaps (cleaning : Cleaning) : List (Nat × Text) :=
  (cleaning.listing.entries.filter fun entry =>
    isSnapshot entry.1 && cleaning.readable entry.1).map fun entry =>
      (entry.2.modified, entry.1)

/-- `snaps.sort_by_key(|(m, _)| *m)`. -/
def Cleaning.sorted (cleaning : Cleaning) : List (Nat × Text) :=
  cleaning.snaps.insertionSort fun first second => first.1 ≤ second.1

/-- `clean_old_snapshots` once the folder has been read. -/
def cleanOldSnapshots (cleaning : Cleaning) (maxSnapshots : Nat)
    (folder : SnapshotFolder) : SnapshotFolder :=
  if maxSnapshots < cleaning.sorted.length then
    (cleaning.sorted.take (cleaning.sorted.length - maxSnapshots)).foldl
      (fun remaining old =>
        if cleaning.removable old.2 then remaining.erase old.2 else remaining)
      folder
  else folder

/-! ## Ticks -/

/-- What became of `fs::write`. -/
inductive WriteOutcome where
  | refused
  | stopped (length : Nat)
  | written
  deriving DecidableEq

/-- A tick with what the surroundings do during it; without a cleaning the
folder could not be read. -/
structure SnapshotTick where
  timestamp : Nat
  store : Store
  draw : Option Nonce
  outcome : WriteOutcome
  modified : Nat
  cleaning : Option Cleaning

/-- `serde_json::to_string_pretty`, the cipher and `SNAP_LIMIT`. -/
structure SnapshotTask where
  toStringPretty : Store → Option Text
  cipher : Cipher
  setting : Option Text

namespace SnapshotTask

/-- What a tick has to write. -/
def sealed (task : SnapshotTask) (tick : SnapshotTick) : Option Text :=
  (task.toStringPretty tick.store).bind (task.cipher.encrypt tick.draw)

/-- The file that a tick leaves under its name. -/
def written (task : SnapshotTask) (tick : SnapshotTick) :
    Option SnapshotFile :=
  match task.sealed tick, tick.outcome with
  | none, _ => none
  | some _, .refused => none
  | some encrypted, .stopped length =>
      some ⟨tick.modified, encrypted.take length⟩
  | some encrypted, .written => some ⟨tick.modified, encrypted⟩

/-- The first part of a tick. -/
def save (task : SnapshotTask) (folder : SnapshotFolder)
    (tick : SnapshotTick) : SnapshotFolder :=
  match task.written tick with
  | some file => folder.insert (snapshotName tick.timestamp) file
  | none => folder

/-- A tick of `start_snapshot_task`. -/
def step (task : SnapshotTask) (folder : SnapshotFolder)
    (tick : SnapshotTick) : Option SnapshotFolder :=
  match tick.cleaning with
  | none => some (task.save folder tick)
  | some cleaning =>
      if cleaning.listing.toFinmap = task.save folder tick then
        some (cleanOldSnapshots cleaning (snapLimit task.setting)
          (task.save folder tick))
      else none

/-- The folder if nothing were ever removed. -/
def archive (task : SnapshotTask) (start : SnapshotFolder)
    (ticks : List SnapshotTick) : SnapshotFolder :=
  ticks.foldl task.save start

end SnapshotTask

/-- Snapshots are told by their names and aged by their modification times. -/
def snapshotRetention : Retention Text SnapshotFile Nat where
  counts := isSnapshot
  stamp := SnapshotFile.modified

/-! ## Names -/

theorem isSnapshot_snapshotName (timestamp : Nat) :
    isSnapshot (snapshotName timestamp) = true := by
  have begins : snapshotPrefix <+: snapshotName timestamp :=
    List.prefix_append _ _
  have ends : snapshotSuffix <:+ snapshotName timestamp :=
    (List.suffix_append _ _).trans (List.suffix_append _ _)
  rw [isSnapshot, Bool.and_eq_true]
  exact ⟨List.isPrefixOf_iff_prefix.mpr begins,
    List.isSuffixOf_iff_suffix.mpr ends⟩

theorem snapshotName_injective : Function.Injective snapshotName := by
  intro first second same
  have digits := List.append_cancel_right (List.append_cancel_left same)
  have values := congrArg (Nat.ofDigitChars 10 · 0) digits
  simpa [Nat.ofDigitChars_toDigits] using values

/-! ## What cleaning removes -/

namespace Cleaning

variable {cleaning : Cleaning} {folder : SnapshotFolder}

theorem mem_snaps (lists : cleaning.listing.toFinmap = folder)
    {snap : Nat × Text} :
    snap ∈ cleaning.snaps ↔
      isSnapshot snap.2 = true ∧ cleaning.readable snap.2 = true ∧
        ∃ file, folder.lookup snap.2 = some file ∧
          file.modified = snap.1 := by
  subst lists
  obtain ⟨modified, name⟩ := snap
  simp only [snaps, List.mem_map, List.mem_filter, Bool.and_eq_true,
    Finmap.lookup_toFinmap, Prod.mk.injEq]
  constructor
  · rintro ⟨⟨found, file⟩, ⟨listed, counts, readable⟩, rfl, rfl⟩
    exact ⟨counts, readable, file, AList.mem_lookup_iff.mpr listed, rfl⟩
  · rintro ⟨counts, readable, file, found, rfl⟩
    exact ⟨⟨name, file⟩, ⟨AList.mem_lookup_iff.mp found, counts, readable⟩,
      rfl, rfl⟩

theorem mem_sorted {snap : Nat × Text} :
    snap ∈ cleaning.sorted ↔ snap ∈ cleaning.snaps :=
  List.mem_insertionSort _

/-- No file is listed twice. -/
theorem nodup_names (cleaning : Cleaning) :
    (cleaning.sorted.map Prod.snd).Nodup := by
  have same : (cleaning.sorted.map Prod.snd).Perm
      (cleaning.snaps.map Prod.snd) :=
    (List.perm_insertionSort _ _).map Prod.snd
  have part : (cleaning.snaps.map Prod.snd).Sublist
      cleaning.listing.keys := by
    rw [snaps, List.map_map]
    exact List.filter_sublist.map Sigma.fst
  exact same.nodup_iff.mpr (cleaning.listing.keys_nodup.sublist part)

/-- What comes later in the sorted list is not older. -/
theorem pairwise_sorted (cleaning : Cleaning) :
    cleaning.sorted.Pairwise fun first second => first.1 ≤ second.1 := by
  have : Std.Total fun first second : Nat × Text => first.1 ≤ second.1 :=
    ⟨fun first second => Nat.le_total first.1 second.1⟩
  have : IsTrans (Nat × Text) fun first second => first.1 ≤ second.1 :=
    ⟨fun _ _ _ => Nat.le_trans⟩
  exact List.pairwise_insertionSort _ _

end Cleaning

/-- The names that a cleaning removes. -/
def Cleaning.removed (cleaning : Cleaning) (maxSnapshots : Nat) : List Text :=
  ((cleaning.sorted.take (cleaning.sorted.length - maxSnapshots)).filter
    fun old => cleaning.removable old.2).map Prod.snd

theorem cleanOldSnapshots_eq (cleaning : Cleaning) (maxSnapshots : Nat)
    (folder : SnapshotFolder) :
    cleanOldSnapshots cleaning maxSnapshots folder =
      (cleaning.removed maxSnapshots).foldl
        (fun remaining name => remaining.erase name) folder := by
  rw [Cleaning.removed, List.foldl_map, List.foldl_filter, cleanOldSnapshots]
  by_cases many : maxSnapshots < cleaning.sorted.length
  · rw [if_pos many]
  · rw [if_neg many, Nat.sub_eq_zero_of_le (Nat.not_lt.mp many),
      List.take_zero, List.foldl_nil]

/-- Cleaning keeps the newest snapshots, whatever could not be read or
removed. -/
theorem retains_cleanOldSnapshots {limit : Nat}
    {archive folder : SnapshotFolder} {cleaning : Cleaning}
    (lists : cleaning.listing.toFinmap = folder)
    (retains : snapshotRetention.Retains limit archive folder) :
    snapshotRetention.Retains limit archive
      (cleanOldSnapshots cleaning limit folder) := by
  by_cases many : limit < cleaning.sorted.length
  · have old : ∀ name ∈ cleaning.removed limit,
        ∃ snap ∈ cleaning.sorted.take (cleaning.sorted.length - limit),
          snap.2 = name := by
      intro name member
      obtain ⟨snap, taken, rfl⟩ := List.mem_map.mp member
      exact ⟨snap, List.mem_of_mem_filter taken, rfl⟩
    have snapOf : ∀ snap ∈ cleaning.sorted, isSnapshot snap.2 = true ∧
        ∃ file, folder.lookup snap.2 = some file ∧
          file.modified = snap.1 := by
      intro snap member
      have facts := (Cleaning.mem_snaps lists).mp
        (Cleaning.mem_sorted.mp member)
      exact ⟨facts.1, facts.2.2⟩
    have names := cleaning.nodup_names
    have ages := cleaning.pairwise_sorted
    rw [← List.take_append_drop (cleaning.sorted.length - limit)
      cleaning.sorted] at names ages
    rw [List.map_append] at names
    have enough : limit ≤ ((cleaning.sorted.drop
        (cleaning.sorted.length - limit)).map Prod.snd).toFinset.card := by
      rw [List.toFinset_card_of_nodup (List.nodup_append.mp names).2.1,
        List.length_map, List.length_drop]
      omega
    rw [cleanOldSnapshots_eq]
    refine retains.eraseAll enough ?_ ?_ ?_
    · intro name member
      obtain ⟨snap, taken, rfl⟩ := old name member
      exact (snapOf snap (List.mem_of_mem_take taken)).1
    · intro kept member
      obtain ⟨snap, dropped, rfl⟩ :=
        List.mem_map.mp (List.mem_toFinset.mp member)
      refine ⟨?_, (snapOf snap (List.mem_of_mem_drop dropped)).1⟩
      intro removed
      obtain ⟨other, taken, same⟩ := old snap.2 removed
      exact (List.nodup_append.mp names).2.2 other.2
        (List.mem_map_of_mem taken) snap.2 (List.mem_map_of_mem dropped) same
    · intro name member file found kept keptMember
      obtain ⟨snap, taken, rfl⟩ := old name member
      obtain ⟨other, dropped, rfl⟩ :=
        List.mem_map.mp (List.mem_toFinset.mp keptMember)
      obtain ⟨-, file', found', modified⟩ :=
        snapOf snap (List.mem_of_mem_take taken)
      cases Option.some.inj (found.symm.trans found')
      obtain ⟨-, rival, present, modified'⟩ :=
        snapOf other (List.mem_of_mem_drop dropped)
      refine ⟨rival, present, ?_⟩
      have order := (List.pairwise_append.mp ages).2.2 snap taken other dropped
      rw [← modified, ← modified'] at order
      exact order
  · rw [cleanOldSnapshots, if_neg many]
    exact retains

/-- Every snapshot can be listed with its metadata and removed. -/
def Cleaning.Undisturbed (cleaning : Cleaning) : Prop :=
  ∀ name, isSnapshot name = true →
    cleaning.readable name = true ∧ cleaning.removable name = true

theorem lookup_foldl_erase (names : List Text) (folder : SnapshotFolder)
    (tested : Text) :
    (names.foldl (fun remaining name => remaining.erase name) folder).lookup
        tested =
      if tested ∈ names then none else folder.lookup tested := by
  induction names generalizing folder with
  | nil =>
      simp
  | cons name rest inductionHypothesis =>
      rw [List.foldl_cons, inductionHypothesis, HashMap.lookup_erase_eq_ite]
      by_cases later : tested ∈ rest
      · simp [later]
      · by_cases same : tested = name
        · simp [same]
        · simp [later, same]

/-- An undisturbed cleaning leaves at most the limit. -/
theorem card_cleanOldSnapshots_le {limit : Nat} {folder : SnapshotFolder}
    {cleaning : Cleaning} (lists : cleaning.listing.toFinmap = folder)
    (undisturbed : cleaning.Undisturbed) :
    (snapshotRetention.counted
      (cleanOldSnapshots cleaning limit folder)).card ≤ limit := by
  have listed : ∀ name file, folder.lookup name = some file →
      isSnapshot name = true →
        (file.modified, name) ∈ cleaning.sorted := by
    intro name file found counts
    exact Cleaning.mem_sorted.mpr ((Cleaning.mem_snaps lists).mpr
      ⟨counts, (undisturbed name counts).1, file, found, rfl⟩)
  have left : snapshotRetention.counted
      (cleanOldSnapshots cleaning limit folder) ⊆ ((cleaning.sorted.drop
        (cleaning.sorted.length - limit)).map Prod.snd).toFinset := by
    intro name member
    obtain ⟨⟨file, found⟩, counts⟩ := Retention.mem_counted.mp member
    rw [cleanOldSnapshots_eq, lookup_foldl_erase] at found
    by_cases removed : name ∈ cleaning.removed limit
    · rw [if_pos removed] at found
      cases found
    · rw [if_neg removed] at found
      have inside := listed name file found counts
      rw [← List.take_append_drop (cleaning.sorted.length - limit)
        cleaning.sorted, List.mem_append] at inside
      rcases inside with taken | dropped
      · refine absurd ?_ removed
        have removable := (undisturbed name counts).2
        exact List.mem_map.mpr ⟨(file.modified, name),
          List.mem_filter.mpr ⟨taken, removable⟩, rfl⟩
      · exact List.mem_toFinset.mpr
          (List.mem_map.mpr ⟨(file.modified, name), dropped, rfl⟩)
  calc (snapshotRetention.counted
        (cleanOldSnapshots cleaning limit folder)).card
      ≤ ((cleaning.sorted.drop (cleaning.sorted.length - limit)).map
          Prod.snd).toFinset.card := Finset.card_le_card left
    _ ≤ ((cleaning.sorted.drop (cleaning.sorted.length - limit)).map
          Prod.snd).length := List.toFinset_card_le _
    _ ≤ limit := by
        rw [List.length_map, List.length_drop]
        omega

/-! ## Runs of the task -/

namespace SnapshotTask

variable {task : SnapshotTask}

theorem modified_written {tick : SnapshotTick} {file : SnapshotFile}
    (leaves : task.written tick = some file) :
    file.modified = tick.modified := by
  unfold written at leaves
  split at leaves
  · cases leaves
  · cases leaves
  · cases leaves
    rfl
  · cases leaves
    rfl

theorem step_eq_some {folder next : SnapshotFolder} {tick : SnapshotTick} :
    task.step folder tick = some next ↔
      (tick.cleaning = none ∧ next = task.save folder tick) ∨
      ∃ cleaning, tick.cleaning = some cleaning ∧
        cleaning.listing.toFinmap = task.save folder tick ∧
        next = cleanOldSnapshots cleaning (snapLimit task.setting)
          (task.save folder tick) := by
  rw [step]
  cases tick.cleaning with
  | none =>
      simp [eq_comm]
  | some cleaning =>
      by_cases lists : cleaning.listing.toFinmap = task.save folder tick
      · simp [lists, eq_comm]
      · simp [lists]

/-- Modification times never go back: the files of the folder are not newer
than the ticks, and the ticks are in order. -/
structure InOrder (folder : SnapshotFolder) (ticks : List SnapshotTick) :
    Prop where
  start : ∀ name file, folder.lookup name = some file →
    ∀ tick ∈ ticks, file.modified ≤ tick.modified
  ticks : ticks.Pairwise fun earlier later =>
    earlier.modified ≤ later.modified

theorem InOrder.tail {folder : SnapshotFolder} {tick : SnapshotTick}
    {rest : List SnapshotTick} (order : InOrder folder (tick :: rest)) :
    InOrder (task.save folder tick) rest where
  start name file found later member := by
    rw [save] at found
    cases leaves : task.written tick with
    | none =>
        rw [leaves] at found
        exact order.start name file found later
          (List.mem_cons_of_mem tick member)
    | some new =>
        rw [leaves] at found
        simp only [HashMap.lookup_insert_eq_ite] at found
        by_cases same : name = snapshotName tick.timestamp
        · rw [if_pos same] at found
          cases found
          rw [modified_written leaves]
          exact List.rel_of_pairwise_cons order.ticks member
        · rw [if_neg same] at found
          exact order.start name file found later
            (List.mem_cons_of_mem tick member)
  ticks := order.ticks.of_cons

theorem retains_save {limit : Nat} {archive folder : SnapshotFolder}
    {tick : SnapshotTick} {rest : List SnapshotTick}
    (order : InOrder archive (tick :: rest))
    (retains : snapshotRetention.Retains limit archive folder) :
    snapshotRetention.Retains limit (task.save archive tick)
      (task.save folder tick) := by
  rw [save, save]
  cases leaves : task.written tick with
  | none =>
      exact retains
  | some file =>
      refine retains.insert ?_
      intro replaced found
      have notNewer := order.start _ replaced found tick List.mem_cons_self
      rw [← modified_written leaves] at notNewer
      exact notNewer

/-- Step lemma: a tick keeps the newest snapshots. -/
theorem retains_step {archive folder next : SnapshotFolder}
    {tick : SnapshotTick} {rest : List SnapshotTick}
    (order : InOrder archive (tick :: rest))
    (taken : task.step folder tick = some next)
    (retains : snapshotRetention.Retains (snapLimit task.setting) archive
      folder) :
    snapshotRetention.Retains (snapLimit task.setting)
      (task.save archive tick) next := by
  have saved : snapshotRetention.Retains (snapLimit task.setting)
      (task.save archive tick) (task.save folder tick) :=
    retains_save order retains
  rcases step_eq_some.mp taken with ⟨-, rfl⟩ | ⟨cleaning, -, lists, rfl⟩
  · exact saved
  · exact retains_cleanOldSnapshots lists saved

/-- Run lemma. -/
theorem retains_run {archive folder final : SnapshotFolder}
    {ticks : List SnapshotTick} (order : InOrder archive ticks)
    (reached : runSteps task.step folder ticks = some final)
    (retains : snapshotRetention.Retains (snapLimit task.setting) archive
      folder) :
    snapshotRetention.Retains (snapLimit task.setting)
      (task.archive archive ticks) final := by
  induction ticks generalizing archive folder with
  | nil =>
      cases Option.some.inj reached
      exact retains
  | cons tick rest inductionHypothesis =>
      obtain ⟨next, taken, finished⟩ := runSteps_cons_eq_some.mp reached
      exact inductionHypothesis order.tail finished
        (retains_step order taken retains)

/-- Whatever fails at which tick, the folder keeps the newest snapshots of
those ever written and all other files, and it holds no more than the limit
when the last cleaning was undisturbed. -/
theorem retains_newest {start final : SnapshotFolder}
    {ticks : List SnapshotTick} (order : InOrder start ticks)
    (reached : runSteps task.step start ticks = some final) :
    snapshotRetention.Retains (snapLimit task.setting)
        (task.archive start ticks) final ∧
      ∀ last ∈ ticks.getLast?, ∀ cleaning ∈ last.cleaning,
        cleaning.Undisturbed →
          (snapshotRetention.counted final).card =
            min (snapLimit task.setting)
              (snapshotRetention.counted (task.archive start ticks)).card := by
  have retains := retains_run order reached (Retention.Retains.refl _ start)
  refine ⟨retains, ?_⟩
  intro last isLast cleaning cleans undisturbed
  refine le_antisymm (le_min ?_ ?_) retains.enough
  · rw [← List.dropLast_append_getLast? last isLast] at reached
    obtain ⟨before, -, lastStep⟩ := runSteps_append_eq_some.mp reached
    obtain ⟨after, taken, finished⟩ := runSteps_cons_eq_some.mp lastStep
    cases Option.some.inj finished
    rcases step_eq_some.mp taken with ⟨none, -⟩ | ⟨found, given, lists, rfl⟩
    · cases none.symm.trans cleans
    · cases Option.some.inj (given.symm.trans cleans)
      exact card_cleanOldSnapshots_le lists undisturbed
  · exact Finset.card_le_card retains.counted_subset

/-! ### An example -/

/-- The store of a new node. -/
def newStore : Store :=
  (∅ : Store).orDefault "default"

/-- Snapshots of the store of a new node; one is kept. -/
def sample : SnapshotTask where
  toStringPretty store :=
    if store = newStore then some SealedText.defaultStore else none
  cipher := snapshotCipher
  setting := some ['1']

def firstTick : SnapshotTick where
  timestamp := 1700000000000
  store := newStore
  draw := none
  outcome := .stopped 16
  modified := 10
  cleaning := none

/-- Both files are listed, the newer one first. -/
def secondTick : SnapshotTick where
  timestamp := 1700003600000
  store := newStore
  draw := some SealedText.defaultDrawn.nonce
  outcome := .written
  modified := 20
  cleaning := some {
    listing := [
      ⟨snapshotName 1700003600000, 20, SealedText.defaultDrawn.base64⟩,
      ⟨snapshotName 1700000000000, 10,
        SealedText.defaultUnderZeros.base64.take 16⟩].toAList
    readable := fun _ => true
    removable := fun _ => true }

/-- The folder after the two ticks. -/
def sampleFolder : SnapshotFolder :=
  (∅ : SnapshotFolder).insert (snapshotName 1700003600000)
    ⟨20, SealedText.defaultDrawn.base64⟩

theorem inOrder_sample : InOrder ∅ [firstTick, secondTick] where
  start name file found := by
    rw [Finmap.lookup_empty] at found
    cases found
  ticks := by
    simp [firstTick, secondTick]

theorem run_sample :
    runSteps sample.step ∅ [firstTick, secondTick] = some sampleFolder := by
  decide

theorem sample_retains_newest :
    (snapshotRetention.counted sampleFolder).card =
      min (snapLimit sample.setting) (snapshotRetention.counted
        (sample.archive ∅ [firstTick, secondTick])).card :=
  (retains_newest inOrder_sample run_sample).2 secondTick rfl _ rfl
    fun _ _ => ⟨rfl, rfl⟩

/-! ## Restoring -/

theorem archive_append (start : SnapshotFolder)
    (first second : List SnapshotTick) :
    task.archive start (first ++ second) =
      task.archive (task.archive start first) second :=
  List.foldl_append

theorem lookup_save (folder : SnapshotFolder) (tick : SnapshotTick)
    (name : Text) :
    (task.save folder tick).lookup name =
      if snapshotName tick.timestamp = name then
        (task.written tick).or (folder.lookup name)
      else folder.lookup name := by
  rw [save]
  cases task.written tick with
  | none =>
      simp
  | some file =>
      simp only [HashMap.lookup_insert_eq_ite, eq_comm (a := name)]
      rfl

/-- A file of the archive was there at the start, or a tick wrote it. -/
theorem exists_written_of_lookup_archive {start : SnapshotFolder}
    {ticks : List SnapshotTick} {name : Text} {file : SnapshotFile}
    (found : (task.archive start ticks).lookup name = some file) :
    start.lookup name = some file ∨
      ∃ tick ∈ ticks, task.written tick = some file ∧
        snapshotName tick.timestamp = name := by
  induction ticks generalizing start with
  | nil =>
      exact Or.inl found
  | cons tick rest inductionHypothesis =>
      rcases inductionHypothesis found with saved | ⟨later, member, facts⟩
      · rw [lookup_save] at saved
        by_cases same : snapshotName tick.timestamp = name
        · rw [if_pos same] at saved
          rcases Option.or_eq_some_iff.mp saved with leaves | ⟨-, before⟩
          · exact Or.inr ⟨tick, List.mem_cons_self, leaves, same⟩
          · exact Or.inl before
        · rw [if_neg same] at saved
          exact Or.inl saved
      · exact Or.inr ⟨later, List.mem_cons_of_mem tick member, facts⟩

theorem lookup_archive_of_ne {start : SnapshotFolder}
    {ticks : List SnapshotTick} {name : Text}
    (others : ∀ tick ∈ ticks, snapshotName tick.timestamp ≠ name) :
    (task.archive start ticks).lookup name = start.lookup name := by
  induction ticks generalizing start with
  | nil =>
      rfl
  | cons tick rest inductionHypothesis =>
      have saved : (task.save start tick).lookup name = start.lookup name := by
        rw [lookup_save, if_neg (others tick List.mem_cons_self)]
      rw [← saved]
      exact inductionHypothesis fun later member =>
        others later (List.mem_cons_of_mem tick member)

/-- The ticks that wrote a file. -/
def writers (task : SnapshotTask) (ticks : List SnapshotTick) :
    List SnapshotTick :=
  ticks.filter fun tick => (task.written tick).isSome

/-- The rivals of a snapshot in the archive were written after it. -/
theorem card_rivals_le {start : SnapshotFolder}
    {before after : List SnapshotTick} {tick : SnapshotTick}
    {file : SnapshotFile} (leaves : task.written tick = some file)
    (older : ∀ name found, start.lookup name = some found →
      found.modified < tick.modified)
    (earlier : ∀ other ∈ before, other.modified < tick.modified) :
    (snapshotRetention.rivals (task.archive start (before ++ tick :: after))
      (snapshotName tick.timestamp) file).card ≤
        (task.writers after).length := by
  have modified := modified_written leaves
  have inside : snapshotRetention.rivals
      (task.archive start (before ++ tick :: after))
      (snapshotName tick.timestamp) file ⊆
        ((task.writers after).map fun later =>
          snapshotName later.timestamp).toFinset := by
    intro name member
    obtain ⟨-, different, rival, found, notOlder⟩ :=
      Retention.mem_rivals.mp member
    have late : tick.modified ≤ rival.modified := by
      rw [← modified]
      exact notOlder
    have found' : (task.archive (task.save (task.archive start before) tick)
        after).lookup name = some rival := by
      rw [archive_append] at found
      exact found
    rcases exists_written_of_lookup_archive found' with saved |
      ⟨later, laterMember, written, same⟩
    · rw [lookup_save, if_neg different.symm] at saved
      rcases exists_written_of_lookup_archive saved with
        atStart | ⟨other, otherMember, written, -⟩
      · exact absurd (older name rival atStart) (Nat.not_lt.mpr late)
      · rw [modified_written written] at late
        exact absurd (earlier other otherMember) (Nat.not_lt.mpr late)
    · have writes : later ∈ task.writers after :=
        List.mem_filter.mpr ⟨laterMember, by rw [written]; rfl⟩
      exact List.mem_toFinset.mpr (List.mem_map.mpr ⟨later, writes, same⟩)
  refine (Finset.card_le_card inside).trans ?_
  exact (List.toFinset_card_le _).trans (by rw [List.length_map])

/-- A snapshot decrypts to the store of its tick as long as fewer files than
the limit have been written after it. -/
theorem recent_restores {start final : SnapshotFolder}
    {before after : List SnapshotTick} {tick : SnapshotTick} {plain : Text}
    {ciphertext : Bytes}
    (order : InOrder start (before ++ tick :: after))
    (older : ∀ name file, start.lookup name = some file →
      file.modified < tick.modified)
    (earlier : ∀ other ∈ before, other.modified < tick.modified)
    (fresh : ∀ later ∈ after, later.timestamp ≠ tick.timestamp)
    (pretty : task.toStringPretty tick.store = some plain)
    (reliable : task.cipher.Reliable (tick.draw.getD zeroNonce)
      (asBytes plain) ciphertext)
    (complete : tick.outcome = .written)
    (few : (task.writers after).length < snapLimit task.setting)
    (reached : runSteps task.step start (before ++ tick :: after) =
      some final) :
    ∃ file, final.lookup (snapshotName tick.timestamp) = some file ∧
      task.cipher.decrypt file.content = .ok plain := by
  obtain ⟨encrypted, encrypts, restores⟩ :=
    Cipher.exists_encrypt_restores reliable
  have leaves : task.written tick = some ⟨tick.modified, encrypted⟩ := by
    rw [written, sealed, pretty, Option.bind_some, encrypts, complete]
  refine ⟨⟨tick.modified, encrypted⟩, ?_, restores.decrypts⟩
  have retains := retains_run order reached (Retention.Retains.refl _ start)
  refine retains.newest _ _ ?_
    fun _ => (card_rivals_le leaves older earlier).trans_lt few
  have kept : (task.archive (task.save (task.archive start before) tick)
      after).lookup (snapshotName tick.timestamp) =
        some ⟨tick.modified, encrypted⟩ := by
    rw [lookup_archive_of_ne, lookup_save, if_pos rfl, leaves, Option.some_or]
    intro later member same
    exact fresh later member (snapshotName_injective same)
  rw [archive_append]
  exact kept

theorem reliable_secondTick :
    sample.cipher.Reliable (secondTick.draw.getD zeroNonce)
      (asBytes SealedText.defaultStore) SealedText.defaultDrawn.ciphertext where
  sealed := rfl
  unsealed := rfl
  decoded := rfl
  nonempty := by decide
  solid := by
    have visible : SealedText.defaultDrawn.base64.all
        (fun char => !isWhitespace char) = true := by
      decide
    intro char inside
    have shown := List.all_eq_true.mp visible char inside
    simpa using shown

/-- Two snapshots are kept. -/
def samplePair : SnapshotTask :=
  { sample with setting := some ['2'] }

/-- A snapshot with a failed draw; the cleaning finds three files. -/
def thirdTick : SnapshotTick where
  timestamp := 1700007200000
  store := newStore
  draw := none
  outcome := .written
  modified := 30
  cleaning := some {
    listing := [
      ⟨snapshotName 1700003600000, 20, SealedText.defaultDrawn.base64⟩,
      ⟨snapshotName 1700007200000, 30, SealedText.defaultUnderZeros.base64⟩,
      ⟨snapshotName 1700000000000, 10,
        SealedText.defaultUnderZeros.base64.take 16⟩].toAList
    readable := fun _ => true
    removable := fun _ => true }

/-- The folder after the three ticks. -/
def pairFolder : SnapshotFolder :=
  sampleFolder.insert (snapshotName 1700007200000)
    ⟨30, SealedText.defaultUnderZeros.base64⟩

/-- The second snapshot survives the cleaning of the third tick. -/
theorem secondTick_restores :
    ∃ file,
      pairFolder.lookup (snapshotName secondTick.timestamp) = some file ∧
      samplePair.cipher.decrypt file.content =
        .ok SealedText.defaultStore := by
  have nothing : ∀ name file, (∅ : SnapshotFolder).lookup name =
      some file → file.modified < secondTick.modified := by
    intro name file found
    rw [Finmap.lookup_empty] at found
    cases found
  have earlier : ∀ other ∈ [firstTick],
      other.modified < secondTick.modified := by
    intro other member
    rw [List.mem_singleton.mp member]
    decide
  have fresh : ∀ later ∈ [thirdTick],
      later.timestamp ≠ secondTick.timestamp := by
    intro later member
    rw [List.mem_singleton.mp member]
    decide
  have pretty : samplePair.toStringPretty secondTick.store =
      some SealedText.defaultStore := by
    decide
  have few : (samplePair.writers [thirdTick]).length <
      snapLimit samplePair.setting := by
    decide
  have order : InOrder ∅ ([firstTick] ++ secondTick :: [thirdTick]) := by
    constructor
    · intro name file found
      rw [Finmap.lookup_empty] at found
      cases found
    · simp [firstTick, secondTick, thirdTick]
  have reached : runSteps samplePair.step ∅
      ([firstTick] ++ secondTick :: [thirdTick]) = some pairFolder := by
    decide
  exact recent_restores order nothing earlier fresh pretty
    reliable_secondTick rfl few reached

end SnapshotTask

end DynaRust.Storage
