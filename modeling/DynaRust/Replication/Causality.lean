import DynaRust.Replication.KeyCluster

/-!
# Vector clocks and causality

Replication replaces the whole clock of a record, so a node can lose its own
counter and give it out again on another base.  Then clocks of unrelated writes
compare, and two writes can carry one clock.  As long as every accepted write
is given an own counter that its node has not used before, clock comparison is
sound for causality.
-/

namespace DynaRust.Replication

open DynaRust.Foundation DynaRust.Storage VectorClock VersionedValue

namespace KeyCluster

/-- The causal history of a state. -/
def history (state : KeyCluster) : List (Stamp String) :=
  state.writes.map AcceptedWrite.stamp

/-- Dominance between accepted writes implies causal order, and no two of them
carry the same clock. -/
def ClocksSound (state : KeyCluster) : Prop :=
  ∀ first second earlier later, first ≠ second →
    state.writes[first]? = some earlier →
    state.writes[second]? = some later →
      (later.version.dominates earlier.version = true →
        HappenedBefore state.history first second) ∧
      earlier.version.vectorClock ≠ later.version.vectorClock

/-- The record stored at the node, if it is the user's, has an own counter that
is not behind any own counter the node has given out, and not at `u64::MAX`. -/
def OwnCounterFresh (state : KeyCluster) (node user : String) : Prop :=
  ∀ base ∈ state.stored node, base.owner = user →
    reading base.vectorClock node + 1 < UInt64.size ∧
    ∀ write ∈ state.writes, write.node = node →
      reading write.version.vectorClock node ≤ reading base.vectorClock node

/-- An accepted write finds a fresh own counter in the record it is made on. -/
def FreshCounter (state : KeyCluster) : KeyEvent → Prop
  | .put node user _ _ => state.OwnCounterFresh node user
  | .patch node user _ _ => state.OwnCounterFresh node user
  | .deliver _ _ => True

instance (state : KeyCluster) (node user : String) :
    Decidable (state.OwnCounterFresh node user) :=
  inferInstanceAs (Decidable (∀ base ∈ state.stored node, _ → _ ∧ _))

instance (state : KeyCluster) :
    ∀ event, Decidable (state.FreshCounter event)
  | .put node user _ _ =>
      inferInstanceAs (Decidable (state.OwnCounterFresh node user))
  | .patch node user _ _ =>
      inferInstanceAs (Decidable (state.OwnCounterFresh node user))
  | .deliver _ _ => inferInstanceAs (Decidable True)

theorem FreshCounter.ownCounterFresh {state : KeyCluster} {event : KeyEvent}
    {node user : String} {body : HashMap String Value} {now : Nat}
    (fresh : state.FreshCounter event)
    (requests : Requests event node user body now) :
    state.OwnCounterFresh node user := by
  cases requests <;> exact fresh

theorem history_getElem?_eq_some {state : KeyCluster} {position : Nat}
    {entry : Stamp String} (found : state.history[position]? = some entry) :
    ∃ write, state.writes[position]? = some write ∧
      AcceptedWrite.stamp write = entry := by
  rw [history, List.getElem?_map, Option.map_eq_some_iff] at found
  exact found

theorem history_getElem?_of_some {state : KeyCluster} {position : Nat}
    {write : AcceptedWrite} (found : state.writes[position]? = some write) :
    state.history[position]? = some (AcceptedWrite.stamp write) := by
  rw [history, List.getElem?_map, found]
  rfl

@[simp]
theorem length_history (state : KeyCluster) :
    state.history.length = state.writes.length := by
  rw [history, List.length_map]

/-- The clock of an accepted version: the own counter is one above the stored
one, every other counter is the stored one. -/
theorem Written.clock {state : KeyCluster} {node user : String}
    {body : HashMap String Value} {now : Nat} {version : VersionedValue}
    (written : Written (state.stored node) node user body now version) :
    (state.stored node = none ∧
      version.vectorClock = (∅ : VectorClock).insert node 1) ∨
    ∃ base, state.stored node = some base ∧ base.owner = user ∧
      version.vectorClock = increment base.vectorClock node := by
  cases written with
  | created missing =>
      exact Or.inl ⟨missing, rfl⟩
  | updated base found own =>
      exact Or.inr ⟨base, found, own, rfl⟩
  | patched base found own =>
      exact Or.inr ⟨base, found, own, rfl⟩

private theorem reading_single (node tested : String) :
    reading ((∅ : VectorClock).insert node 1) tested =
      if tested = node then 1 else 0 := by
  rw [reading, counter, HashMap.lookup_insert_eq_ite]
  split <;> simp

/-- A write under the condition is admissible in the causal history. -/
theorem admissible_of_fresh {state : KeyCluster} {event : KeyEvent}
    {node user : String} {body : HashMap String Value} {now : Nat}
    {version : VersionedValue} {toSelf : Bool}
    (traced : Traced state) (fresh : state.FreshCounter event)
    (requests : Requests event node user body now)
    (written : Written (state.stored node) node user body now version) :
    Admissible state.history
      (AcceptedWrite.stamp ⟨node, version, toSelf, state.received node⟩) := by
  have known_of_own : ∀ position write,
      state.history[position]? = some write → write.maker = node →
        position ∈ state.received node := by
    intro position write found maker
    obtain ⟨sent, sentFound, rfl⟩ := history_getElem?_eq_some found
    rw [← maker]
    exact traced.ownReceived position sent sentFound
  have knownPast : ∀ position ∈ state.received node,
      position < state.history.length := by
    intro position member
    rw [length_history]
    exact traced.receivedPast node position member
  rcases Written.clock written with
    ⟨missing, clock⟩ | ⟨base, found, own, clock⟩
  · -- A node that stores nothing has made and received nothing.
    have unknown : ∀ position, position ∉ state.received node := by
      intro position member
      have stored := traced.knownStored node position member
      rw [missing] at stored
      cases stored
    exact {
      knownPast := knownPast
      ownKnown := known_of_own
      ownFresh := fun position write found maker =>
        absurd (known_of_own position write found maker) (unknown position)
      ownPositive := by
        simp [AcceptedWrite.stamp, clock, reading_single]
      covered := by
        intro other different
        refine Or.inl ?_
        simp only [AcceptedWrite.stamp, clock, reading_single] at different ⊢
        rw [if_neg different] }
  · obtain ⟨room, highest⟩ :=
      fresh.ownCounterFresh requests base found own
    exact {
      knownPast := knownPast
      ownKnown := known_of_own
      ownFresh := by
        intro position write writeFound maker
        obtain ⟨sent, sentFound, rfl⟩ := history_getElem?_eq_some writeFound
        have bound := highest sent (List.mem_of_getElem? sentFound) maker
        simp only [AcceptedWrite.stamp, clock]
        rw [reading_increment_self base.vectorClock room]
        omega
      ownPositive := by
        simp only [AcceptedWrite.stamp, clock]
        rw [reading_increment_self base.vectorClock room]
        omega
      covered := by
        intro other different
        obtain ⟨write, member, sent, sentFound, same⟩ :=
          traced.storedKnown node base found
        refine Or.inr ⟨write, member, AcceptedWrite.stamp sent,
          history_getElem?_of_some sentFound, ?_⟩
        simp only [AcceptedWrite.stamp, clock] at different ⊢
        rw [reading_increment_of_ne base.vectorClock different, same] }

/-- The invariant of a run in which every write gets a fresh counter. -/
structure WellClocked (state : KeyCluster) : Prop where
  traced : Traced state
  stamped : WellStamped state.history

theorem WellClocked.step {state next : KeyCluster} {event : KeyEvent}
    (clocked : WellClocked state) (fresh : FreshCounter state event)
    (taken : state.step event = some next) : WellClocked next := by
  refine ⟨clocked.traced.step taken, ?_⟩
  rcases step_cases taken with rfl |
    ⟨node, user, body, now, version, toSelf, requests, written, rfl⟩ |
    ⟨node, write, sent, _, _, rfl⟩
  · exact clocked.stamped
  · rw [history, accept_writes, List.map_append]
    exact .write clocked.stamped
      (admissible_of_fresh clocked.traced fresh requests written)
  · exact clocked.stamped

theorem wellClocked_initial : WellClocked initial :=
  ⟨traced_initial, .empty⟩

theorem WellClocked.clocksSound {state : KeyCluster}
    (clocked : WellClocked state) : ClocksSound state := by
  intro first second earlier later different earlierFound laterFound
  have earlierStamp := history_getElem?_of_some earlierFound
  have laterStamp := history_getElem?_of_some laterFound
  constructor
  · intro dominated
    have order := (dominates_iff _ _).mp dominated
    exact clocked.stamped.happenedBefore_of_clock_le earlierStamp laterStamp
      different order.le
  · intro same
    refine different (clocked.stamped.clock_injective earlierStamp laterStamp ?_)
    exact congrArg reading same

/-- In every run whose writes all get fresh own counters, clocks are sound for
causality and identify the write. -/
theorem clocksSound_of_freshCounters {events : List KeyEvent}
    {final : KeyCluster}
    (fresh : StepsMeet step FreshCounter initial events)
    (reached : runSteps step initial events = some final) :
    ClocksSound final := by
  have clocked : WellClocked final :=
    runSteps_induction _
      (fun _ _ _ fresh taken clocked => clocked.step fresh taken)
      fresh reached wellClocked_initial
  exact clocked.clocksSound

/-- Nodes `A` and `B` each receive the other's first write over a record that
misses their own counter, so both go on to write under the clock
`{A: 1, B: 1}`; a further write at `B` dominates the one at `A`. -/
def counterReuse : List KeyEvent :=
  [.put "A" "alice" ∅ 1, .put "B" "alice" ∅ 20, .deliver "C" 1,
    .put "C" "alice" ∅ 0, .deliver "B" 2, .deliver "B" 0,
    .put "B" "alice" ∅ 21, .deliver "A" 1, .put "A" "alice" ∅ 2,
    .patch "B" "alice" ∅ 22]

/-- The state after `counterReuse`. -/
def counterReused : KeyCluster :=
  runResult step initial counterReuse (by decide)

/-- Two writes carry one clock, and one write dominates another outside its
past. -/
theorem counterReuse_unsound :
    runSteps step initial counterReuse = some counterReused ∧
      ¬ ClocksSound counterReused ∧
      (∃ first ∈ counterReused.writes[3]?,
        ∃ second ∈ counterReused.writes[4]?,
          first.version.vectorClock = second.version.vectorClock) ∧
      ∃ first ∈ counterReused.writes[4]?,
        ∃ second ∈ counterReused.writes[5]?,
          second.version.dominates first.version = true ∧
            ¬ HappenedBefore counterReused.history 4 5 := by
  have outsidePast : ¬ HappenedBefore counterReused.history 4 5 := by
    intro before
    have inside : (4 : Nat) ≠ 4 :=
      before.mem_of_closed (fun position => position ≠ 4)
        (by decide) (by decide)
    exact inside rfl
  have sameClock : ∃ first ∈ counterReused.writes[3]?,
      ∃ second ∈ counterReused.writes[4]?,
        first.version.vectorClock = second.version.vectorClock := by
    decide
  have dominated : ∃ first ∈ counterReused.writes[4]?,
      ∃ second ∈ counterReused.writes[5]?,
        second.version.dominates first.version = true := by
    decide
  refine ⟨runSteps_eq_some_runResult _ _ _ _, ?_, sameClock, ?_⟩
  · intro sound
    obtain ⟨first, firstFound, second, secondFound, same⟩ := sameClock
    exact (sound 3 4 first second (by decide) firstFound secondFound).2 same
  · obtain ⟨first, firstFound, second, secondFound, newer⟩ := dominated
    exact ⟨first, firstFound, second, secondFound, newer, outsidePast⟩

/-- The same nodes with deliveries that lose no counter. -/
def counterKept : List KeyEvent :=
  [.put "A" "alice" ∅ 1, .deliver "B" 0, .patch "B" "alice" ∅ 5,
    .deliver "A" 1, .put "A" "alice" ∅ 3]

theorem counterKept_sound :
    ∃ final, runSteps step initial counterKept = some final ∧
      ClocksSound final :=
  have reached := runSteps_eq_some_runResult step initial counterKept
    (by decide)
  ⟨_, reached, clocksSound_of_freshCounters (by decide) reached⟩

end KeyCluster

end DynaRust.Replication
