import DynaRust.Replication.Causality

/-!
# Convergence of the replicas of a key

The merge rule is a contest without a tie-break in which beating is not
transitive.  Replicas that have received every accepted version agree when one
of the versions beats every other one; without such a version two replicas can
end up apart for good.
-/

namespace DynaRust.Replication

open DynaRust.Foundation DynaRust.Storage VectorClock VersionedValue

namespace KeyCluster

/-- The versions produced by accepted writes. -/
def versions (state : KeyCluster) : Set VersionedValue :=
  {version | ∃ write ∈ state.writes, write.version = version}

/-- One accepted version beats every other one under the merge rule. -/
def HasWinner (state : KeyCluster) : Prop :=
  ∃ winner, mergeContest.IsWinner state.versions winner

/-- Every message has been delivered at least once to every other node. -/
def AllDelivered (nodes : List String) (state : KeyCluster) : Prop :=
  ∀ write sent, state.writes[write]? = some sent →
    ∀ node ∈ nodes, node ≠ sent.node → write ∈ state.received node

instance (nodes : List String) (state : KeyCluster) :
    Decidable (AllDelivered nodes state) :=
  decidable_of_iff
    (∀ entry ∈ state.writes.zipIdx, ∀ node ∈ nodes,
      node ≠ entry.1.node → entry.2 ∈ state.received node) <| by
    constructor
    · intro all write sent found
      exact all (sent, write) (List.mem_zipIdx_iff_getElem?.mpr found)
    · intro all entry member
      exact all entry.2 entry.1 (List.mem_zipIdx_iff_getElem?.mp member)

/-- All nodes store the same, possibly nothing. -/
def Agree (nodes : List String) (state : KeyCluster) : Prop :=
  ∀ first ∈ nodes, ∀ second ∈ nodes,
    state.stored first = state.stored second

instance (nodes : List String) (state : KeyCluster) :
    Decidable (Agree nodes state) :=
  inferInstanceAs (Decidable (∀ first ∈ nodes, ∀ second ∈ nodes, _ = _))

/-- The own counter in the stored record of the user is not at `u64::MAX`. -/
def OwnCounterRoom (state : KeyCluster) (node user : String) : Prop :=
  ∀ base ∈ state.stored node, base.owner = user →
    reading base.vectorClock node + 1 < UInt64.size

instance (state : KeyCluster) (node user : String) :
    Decidable (state.OwnCounterRoom node user) :=
  inferInstanceAs (Decidable (∀ base ∈ state.stored node, _ → _))

/-- An accepted write does not increment a counter that stands at
`u64::MAX`. -/
def RoomToCount (state : KeyCluster) : KeyEvent → Prop
  | .put node user _ _ => state.OwnCounterRoom node user
  | .patch node user _ _ => state.OwnCounterRoom node user
  | .deliver _ _ => True

instance (state : KeyCluster) : ∀ event, Decidable (state.RoomToCount event)
  | .put node user _ _ =>
      inferInstanceAs (Decidable (state.OwnCounterRoom node user))
  | .patch node user _ _ =>
      inferInstanceAs (Decidable (state.OwnCounterRoom node user))
  | .deliver _ _ => inferInstanceAs (Decidable True)

theorem RoomToCount.ownCounterRoom {state : KeyCluster} {event : KeyEvent}
    {node user : String} {body : HashMap String Value} {now : Nat}
    (room : state.RoomToCount event)
    (requests : Requests event node user body now) :
    state.OwnCounterRoom node user := by
  cases requests <;> exact room

/-- The node has made or received a write with this version. -/
def Knows (state : KeyCluster) (node : String) (version : VersionedValue) :
    Prop :=
  ∃ write ∈ state.received node, ∃ sent,
    state.writes[write]? = some sent ∧ sent.version = version

theorem Knows.mem_versions {state : KeyCluster} {node : String}
    {version : VersionedValue} (knows : state.Knows node version) :
    version ∈ state.versions := by
  obtain ⟨write, _, sent, found, same⟩ := knows
  exact ⟨sent, List.mem_of_getElem? found, same⟩

theorem versions_accept (state : KeyCluster) (node : String)
    (version : VersionedValue) (toSelf : Bool) :
    (state.accept node version toSelf).versions =
      insert version state.versions := by
  ext tested
  simp [versions, eq_comm, or_comm]

/-- Every node that knows the winner stores it. -/
structure WinnerKept (state : KeyCluster) : Prop where
  traced : Traced state
  kept : ∀ winner, mergeContest.IsWinner state.versions winner →
    ∀ node, state.Knows node winner → state.stored node = some winner

theorem winnerKept_initial : WinnerKept initial where
  traced := traced_initial
  kept := by
    rintro winner wins _ ⟨_, member, _⟩
    cases member

/-- A winner among more versions is one among fewer. -/
theorem isWinner_of_insert {members : Set VersionedValue}
    {version winner : VersionedValue}
    (wins : mergeContest.IsWinner (insert version members) winner)
    (member : winner ∈ members) : mergeContest.IsWinner members winner where
  mem := member
  beats := fun other otherMember different =>
    wins.beats other (Set.mem_insert_of_mem version otherMember) different

/-- What a node knows after accepting a write. -/
theorem knows_accept {state : KeyCluster} (traced : Traced state)
    {node tested : String} {version known : VersionedValue} {toSelf : Bool}
    (knows : (state.accept node version toSelf).Knows tested known) :
    state.Knows tested known ∨ (tested = node ∧ known = version) := by
  obtain ⟨write, member, sent, found, same⟩ := knows
  rw [accept_received] at member
  rcases getElem?_accept found with old | ⟨rfl, rfl⟩
  · refine Or.inl ⟨write, ?_, sent, old, same⟩
    obtain ⟨bound, _⟩ := List.getElem?_eq_some_iff.mp old
    split at member
    · rename_i here
      rw [here]
      rcases List.mem_cons.mp member with rfl | earlier
      · exact absurd bound (lt_irrefl _)
      · exact earlier
    · exact member
  · split at member
    · rename_i here
      exact Or.inr ⟨here, same.symm⟩
    · have := traced.receivedPast tested _ member
      exact absurd this (lt_irrefl _)

theorem knows_receive {state : KeyCluster} {node tested : String}
    {write : Nat} {sent : AcceptedWrite} {known : VersionedValue}
    (sentFound : state.writes[write]? = some sent)
    (knows : (state.receive node write sent.version).Knows tested known) :
    state.Knows tested known ∨ (tested = node ∧ known = sent.version) := by
  obtain ⟨position, member, source, found, same⟩ := knows
  rw [receive_received] at member
  rw [receive_writes] at found
  split at member
  · rename_i here
    rcases List.mem_cons.mp member with rfl | earlier
    · rw [sentFound] at found
      exact Or.inr ⟨here, by rw [← same, Option.some.inj found]⟩
    · rw [here]
      exact Or.inl ⟨position, earlier, source, found, same⟩
  · exact Or.inl ⟨position, member, source, found, same⟩

/-- A write on a stored record dominates it. -/
theorem Written.dominates {stored : Option VersionedValue}
    {node user : String} {body : HashMap String Value} {now : Nat}
    {version base : VersionedValue}
    (written : Written stored node user body now version)
    (found : stored = some base)
    (room : base.owner = user →
      reading base.vectorClock node + 1 < UInt64.size) :
    version.dominates base = true := by
  cases written with
  | created missing =>
      rw [missing] at found
      cases found
  | updated base' found' own =>
      rw [found'] at found
      cases found
      exact dominates_of_increment rfl (room own)
  | patched base' found' own =>
      rw [found'] at found
      cases found
      exact dominates_of_increment rfl (room own)

theorem WinnerKept.step {state next : KeyCluster} {event : KeyEvent}
    (invariant : WinnerKept state) (room : state.RoomToCount event)
    (taken : state.step event = some next) : WinnerKept next := by
  refine ⟨invariant.traced.step taken, ?_⟩
  rcases step_cases taken with rfl |
    ⟨node, user, body, now, version, toSelf, requests, written, rfl⟩ |
    ⟨node, write, sent, _, found, rfl⟩
  · exact invariant.kept
  · intro winner wins tested knows
    rw [versions_accept] at wins
    rw [accept_stored]
    rcases knows_accept invariant.traced knows with old | ⟨rfl, rfl⟩
    · have oldWins := isWinner_of_insert wins old.mem_versions
      have stored := invariant.kept winner oldWins tested old
      split
      · -- A write on the stored winner would beat it.
        rename_i here
        subst here
        have newer : version.dominates winner = true :=
          written.dominates stored
            (room.ownCounterRoom requests winner stored)
        have refused := wins.refuses (Set.mem_insert version state.versions)
        rw [mergeContest_beats, beats_of_dominates newer] at refused
        cases refused
      · exact stored
    · rw [if_pos rfl]
  · intro winner wins tested knows
    have wins' : mergeContest.IsWinner state.versions winner := wins
    rw [receive_stored]
    rcases knows_receive found knows with old | ⟨rfl, rfl⟩
    · have stored := invariant.kept winner wins' tested old
      split
      · rename_i here
        subst here
        rw [stored, mergeIncoming_eq_offer, wins'.offer_other]
        exact ⟨sent, List.mem_of_getElem? found, rfl⟩
      · exact stored
    · rw [if_pos rfl, mergeIncoming_eq_offer, wins'.offer_winner]
      intro existing stored
      have known : state.Knows tested existing :=
        invariant.traced.storedKnown tested existing stored
      exact known.mem_versions

theorem winnerKept_of_run {events : List KeyEvent} {final : KeyCluster}
    (room : StepsMeet step RoomToCount initial events)
    (reached : runSteps step initial events = some final) :
    WinnerKept final :=
  runSteps_induction _
    (fun _ _ _ room taken invariant => invariant.step room taken)
    room reached winnerKept_initial

/-- With everything delivered, every node knows every accepted version. -/
theorem knows_of_allDelivered {state : KeyCluster} {nodes : List String}
    (traced : Traced state) (delivered : AllDelivered nodes state)
    {node : String} (member : node ∈ nodes) {version : VersionedValue}
    (accepted : version ∈ state.versions) : state.Knows node version := by
  obtain ⟨sent, sentMember, same⟩ := accepted
  obtain ⟨write, found⟩ := List.getElem?_of_mem sentMember
  refine ⟨write, ?_, sent, found, same⟩
  by_cases own : node = sent.node
  · rw [own]
    exact traced.ownReceived write sent found
  · exact delivered write sent found node member own

/-- Once every message is delivered, all nodes store the winner. -/
theorem agree_of_hasWinner {events : List KeyEvent} {final : KeyCluster}
    {nodes : List String}
    (room : StepsMeet step RoomToCount initial events)
    (reached : runSteps step initial events = some final)
    (delivered : AllDelivered nodes final) (decided : final.HasWinner) :
    Agree nodes final := by
  have invariant := winnerKept_of_run room reached
  obtain ⟨winner, wins⟩ := decided
  have stores : ∀ node ∈ nodes, final.stored node = some winner :=
    fun node member => invariant.kept winner wins node <|
      knows_of_allDelivered invariant.traced delivered member wins.mem
  intro first firstMember second secondMember
  rw [stores first firstMember, stores second secondMember]

theorem agree_of_no_writes {state : KeyCluster} (traced : Traced state)
    (none : state.writes = []) (nodes : List String) : Agree nodes state := by
  have empty : ∀ node, state.stored node = Option.none := by
    intro node
    cases stored : state.stored node with
    | none =>
        rfl
    | some version =>
        obtain ⟨_, _, _, found, _⟩ := traced.storedKnown node version stored
        simp [none] at found
  intro first _ second _
  rw [empty first, empty second]

/-! ## Later writes at later times -/

/-- The clock reading of a write exceeds the timestamps of all versions
accepted so far. -/
def LaterTimestamp (state : KeyCluster) : KeyEvent → Prop
  | .put _ _ _ now => ∀ write ∈ state.writes, write.version.timestamp < now
  | .patch _ _ _ now => ∀ write ∈ state.writes, write.version.timestamp < now
  | .deliver _ _ => True

instance (state : KeyCluster) :
    ∀ event, Decidable (state.LaterTimestamp event)
  | .put _ _ _ now => inferInstanceAs
      (Decidable (∀ write ∈ state.writes, write.version.timestamp < now))
  | .patch _ _ _ now => inferInstanceAs
      (Decidable (∀ write ∈ state.writes, write.version.timestamp < now))
  | .deliver _ _ => inferInstanceAs (Decidable True)

theorem LaterTimestamp.larger {state : KeyCluster} {event : KeyEvent}
    {node user : String} {body : HashMap String Value} {now : Nat}
    (later : state.LaterTimestamp event)
    (requests : Requests event node user body now) :
    ∀ write ∈ state.writes, write.version.timestamp < now := by
  cases requests <;> exact later

/-- The timestamps of the accepted versions grow in the order of the writes. -/
def TimestampsSorted (state : KeyCluster) : Prop :=
  state.writes.Pairwise fun earlier later =>
    earlier.version.timestamp < later.version.timestamp

theorem TimestampsSorted.step {state next : KeyCluster} {event : KeyEvent}
    (sorted : TimestampsSorted state) (later : state.LaterTimestamp event)
    (taken : state.step event = some next) : TimestampsSorted next := by
  rcases step_cases taken with rfl |
    ⟨node, user, body, now, version, toSelf, requests, written, rfl⟩ |
    ⟨_, _, _, _, _, rfl⟩
  · exact sorted
  · rw [TimestampsSorted, accept_writes, List.pairwise_append]
    refine ⟨sorted, List.pairwise_singleton _ _, ?_⟩
    intro write member newest isNewest
    rw [List.mem_singleton.mp isNewest, written.timestamp]
    exact later.larger requests write member
  · exact sorted

/-- When every write gets a fresh own counter and a clock reading later than
all versions before it, the last write is the winner. -/
theorem hasWinner_of_laterTimestamps {events : List KeyEvent}
    {final : KeyCluster}
    (fresh : StepsMeet step FreshCounter initial events)
    (later : StepsMeet step LaterTimestamp initial events)
    (reached : runSteps step initial events = some final)
    (someWrite : final.writes ≠ []) : final.HasWinner := by
  have sound := clocksSound_of_freshCounters fresh reached
  have stamped : WellClocked final :=
    runSteps_induction _
      (fun _ _ _ fresh taken clocked => clocked.step fresh taken)
      fresh reached wellClocked_initial
  have sorted : TimestampsSorted final :=
    runSteps_induction _
      (fun _ _ _ later taken sorted => sorted.step later taken)
      later reached List.Pairwise.nil
  obtain ⟨earlier, newest, shape⟩ := List.eq_nil_or_concat'
    final.writes |>.resolve_left someWrite
  have newestFound : final.writes[earlier.length]? = some newest := by
    rw [shape, List.getElem?_concat_length]
  refine ⟨newest.version, ⟨newest, List.mem_of_getElem? newestFound, rfl⟩, ?_⟩
  rintro other ⟨write, member, rfl⟩ different
  have memberEarlier : write ∈ earlier := by
    rw [shape, List.mem_append, List.mem_singleton] at member
    rcases member with member | rfl
    · exact member
    · exact absurd rfl different
  obtain ⟨position, found⟩ := List.getElem?_of_mem memberEarlier
  have bound := (List.getElem?_eq_some_iff.mp found).1
  have foundFinal : final.writes[position]? = some write := by
    rw [shape, List.getElem?_append_left bound]
    exact found
  -- An earlier write that dominated the last one would have it in its past.
  have notDominating : write.version.dominates newest.version = false := by
    rw [Bool.eq_false_iff]
    intro older
    have before := (sound earlier.length position newest write (by omega)
      newestFound foundFinal).1 older
    have := stamped.stamped.lt_of_happenedBefore before
    omega
  have earlierTimestamp :
      write.version.timestamp < newest.version.timestamp := by
    rw [TimestampsSorted, shape, List.pairwise_append] at sorted
    exact sorted.2.2 write memberEarlier newest (List.mem_singleton_self _)
  exact (beats_iff _ _).mpr (Or.inr ⟨notDominating, earlierTimestamp⟩)

/-! ## Divergence without a winner -/

/-- The events are deliveries. -/
def OnlyDeliveries (events : List KeyEvent) : Prop :=
  ∀ event ∈ events, ∃ node write, event = .deliver node write

/-- What a run of deliveries to the listed nodes leaves behind: the writes and
the other nodes are as before, and nothing received is forgotten. -/
structure DeliveredTo (nodes : List String) (state final : KeyCluster) :
    Prop where
  writes : final.writes = state.writes
  stored : ∀ other, other ∉ nodes → final.stored other = state.stored other
  received : ∀ other, ∀ write ∈ state.received other,
    write ∈ final.received other

theorem DeliveredTo.trans {first second : List String}
    {state middle final : KeyCluster}
    (early : DeliveredTo first state middle)
    (late : DeliveredTo second middle final) :
    DeliveredTo (first ++ second) state final where
  writes := late.writes.trans early.writes
  stored := by
    intro other absent
    rw [List.mem_append, not_or] at absent
    rw [late.stored other absent.2, early.stored other absent.1]
  received := fun other write member =>
    late.received other write (early.received other write member)

/-- Numbered writes can be delivered to a node that made none of them, in the
listed order. -/
theorem run_deliveries (node : String)
    (state : KeyCluster) {order : List (AcceptedWrite × Nat)}
    (listed : ∀ entry ∈ order,
      state.writes[entry.2]? = some entry.1 ∧ entry.1.node ≠ node) :
    ∃ final,
      runSteps step state (order.map fun entry => .deliver node entry.2) =
          some final ∧
        DeliveredTo [node] state final ∧
        final.stored node = mergeContest.offerAll (state.stored node)
          (order.map fun entry => entry.1.version) ∧
        ∀ entry ∈ order, entry.2 ∈ final.received node := by
  induction order generalizing state with
  | nil =>
      exact ⟨state, rfl, ⟨rfl, fun _ _ => rfl, fun _ _ member => member⟩,
        rfl, by simp⟩
  | cons entry rest inductionHypothesis =>
      obtain ⟨found, foreign⟩ := listed entry (by simp)
      let next := state.receive node entry.2 entry.1.version
      have taken : state.step (.deliver node entry.2) = some next := by
        simp only [step, found]
        rw [if_neg fun own => foreign own.1]
      obtain ⟨final, reached, delivered, stored, known⟩ :=
        inductionHypothesis next
          (fun other member => listed other (by simp [member]))
      have keeps : ∀ other, ∀ write ∈ state.received other,
          write ∈ next.received other := by
        intro other write member
        rw [receive_received]
        split
        · rename_i here
          rw [here] at member
          exact List.mem_cons_of_mem _ member
        · exact member
      refine ⟨final, runSteps_cons_eq_some.mpr ⟨next, taken, reached⟩,
        ⟨delivered.writes, ?_, ?_⟩, ?_, ?_⟩
      · intro other absent
        rw [delivered.stored other absent, receive_stored,
          if_neg (fun here => absent (List.mem_singleton.mpr here))]
      · intro other write member
        exact delivered.received other write (keeps other write member)
      · rw [stored, receive_stored, if_pos rfl, mergeIncoming_eq_offer]
        rfl
      · intro other member
        rcases List.mem_cons.mp member with rfl | later
        · apply delivered.received
          rw [receive_received, if_pos rfl]
          exact List.mem_cons_self
        · exact known other later

/-- Everything can be delivered to the listed nodes. -/
theorem run_deliverAll (nodes : List String) (state : KeyCluster) :
    ∃ deliveries final, OnlyDeliveries deliveries ∧
      runSteps step state deliveries = some final ∧
      DeliveredTo nodes state final ∧ AllDelivered nodes final := by
  induction nodes generalizing state with
  | nil =>
      refine ⟨[], state, by simp [OnlyDeliveries], rfl,
        ⟨rfl, fun _ _ => rfl, fun _ _ member => member⟩, ?_⟩
      intro _ _ _ node member
      cases member
  | cons node rest inductionHypothesis =>
      let order := state.writes.zipIdx.filter fun entry => entry.1.node ≠ node
      have listed : ∀ entry ∈ order,
          state.writes[entry.2]? = some entry.1 ∧ entry.1.node ≠ node := by
        intro entry member
        obtain ⟨inside, foreign⟩ := List.mem_filter.mp member
        exact ⟨List.mem_zipIdx_iff_getElem?.mp inside,
          of_decide_eq_true foreign⟩
      obtain ⟨middle, early, deliveredFirst, _, known⟩ :=
        run_deliveries node state listed
      obtain ⟨deliveries, final, only, late, deliveredRest, allRest⟩ :=
        inductionHypothesis middle
      refine ⟨order.map (fun entry => .deliver node entry.2) ++ deliveries,
        final, ?_, runSteps_append_eq_some.mpr ⟨middle, early, late⟩,
        deliveredFirst.trans deliveredRest, ?_⟩
      · intro event member
        rcases List.mem_append.mp member with here | later
        · obtain ⟨entry, _, rfl⟩ := List.mem_map.mp here
          exact ⟨node, entry.2, rfl⟩
        · exact only event later
      · intro write sent found tested member foreign
        rcases List.mem_cons.mp member with rfl | later
        · rw [deliveredRest.writes, deliveredFirst.writes] at found
          exact deliveredRest.received tested write <|
            known (sent, write) <| List.mem_filter.mpr
              ⟨List.mem_zipIdx_iff_getElem?.mpr found,
                decide_eq_true (Ne.symm foreign)⟩
        · exact allRest write sent found tested later foreign

theorem Traced.stored_of_new {state : KeyCluster} (traced : Traced state)
    {node : String} (new : state.received node = []) :
    state.stored node = none := by
  cases stored : state.stored node with
  | none =>
      rfl
  | some version =>
      obtain ⟨_, member, _⟩ := traced.storedKnown node version stored
      rw [new] at member
      cases member

/-- A replica that has received nothing has made none of the writes. -/
theorem Traced.foreign_of_new {state : KeyCluster} (traced : Traced state)
    {node : String} (new : state.received node = [])
    (entry : AcceptedWrite × Nat) (member : entry ∈ state.writes.zipIdx) :
    state.writes[entry.2]? = some entry.1 ∧ entry.1.node ≠ node := by
  have found := List.mem_zipIdx_iff_getElem?.mp member
  refine ⟨found, fun own => ?_⟩
  have known := traced.ownReceived entry.2 entry.1 found
  rw [own, new] at known
  cases known

theorem versions_eq_numbered (state : KeyCluster) :
    {offered | ∃ entry ∈ state.writes.zipIdx, entry.1.version = offered} =
      state.versions := by
  ext offered
  constructor
  · rintro ⟨entry, member, same⟩
    exact ⟨entry.1, List.mem_of_getElem?
      (List.mem_zipIdx_iff_getElem?.mp member), same⟩
  · rintro ⟨sent, member, same⟩
    obtain ⟨write, found⟩ := List.getElem?_of_mem member
    exact ⟨(sent, write), List.mem_zipIdx_iff_getElem?.mpr found, same⟩

/-- Two replicas that have received nothing can be brought apart when no
accepted version beats all others. -/
theorem exists_divergence {state : KeyCluster} (traced : Traced state)
    {nodes : List String} {first second : String}
    (firstMember : first ∈ nodes) (secondMember : second ∈ nodes)
    (different : first ≠ second)
    (firstNew : state.received first = [])
    (secondNew : state.received second = [])
    (undecided : ¬ state.HasWinner) (someWrite : state.writes ≠ []) :
    ∃ deliveries final, OnlyDeliveries deliveries ∧
      runSteps step state deliveries = some final ∧
      AllDelivered nodes final ∧ ¬ Agree nodes final := by
  -- The first replica gets the writes in the order in which they were made.
  obtain ⟨afterFirst, runFirst, deliveredFirst, storedFirst, knownFirst⟩ :=
    run_deliveries first state (traced.foreign_of_new firstNew)
  rw [traced.stored_of_new firstNew] at storedFirst
  have numbered : state.writes.zipIdx.map (fun entry => entry.1.version) ≠
      [] := by
    intro empty
    exact someWrite (List.zipIdx_eq_nil_iff.mp (List.map_eq_nil_iff.mp empty))
  obtain ⟨result, _, held⟩ := mergeContest.exists_offerAll_none numbered
  -- The second one gets them in an order that avoids that result.
  have loses : ¬ mergeContest.IsWinner
      {offered | ∃ entry ∈ state.writes.zipIdx,
        entry.1.version = offered} result := by
    intro wins
    rw [versions_eq_numbered] at wins
    exact undecided ⟨result, wins⟩
  obtain ⟨order, sameEntries, avoids⟩ :=
    mergeContest.exists_order_avoiding
      (fun entry : AcceptedWrite × Nat => entry.1.version) loses
  have listedSecond : ∀ entry ∈ order,
      afterFirst.writes[entry.2]? = some entry.1 ∧
        entry.1.node ≠ second := by
    intro entry member
    rw [deliveredFirst.writes]
    exact traced.foreign_of_new secondNew entry
      ((sameEntries entry).mp member)
  obtain ⟨afterSecond, runSecond, deliveredSecond, storedSecond, knownSecond⟩ :=
    run_deliveries second afterFirst listedSecond
  have untouched : second ∉ [first] := by
    simp [Ne.symm different]
  rw [deliveredFirst.stored second untouched,
    traced.stored_of_new secondNew] at storedSecond
  -- Everybody else gets everything.
  let others := nodes.filter fun node => node ≠ first ∧ node ≠ second
  have firstOut : first ∉ others := by simp [others]
  have secondOut : second ∉ others := by simp [others]
  obtain ⟨deliveries, final, only, runOthers, deliveredOthers, allOthers⟩ :=
    run_deliverAll others afterSecond
  have writesFinal : final.writes = state.writes := by
    rw [deliveredOthers.writes, deliveredSecond.writes, deliveredFirst.writes]
  refine ⟨state.writes.zipIdx.map (fun entry => .deliver first entry.2) ++
      (order.map (fun entry => .deliver second entry.2) ++ deliveries),
    final, ?_, ?_, ?_, ?_⟩
  · intro event member
    rcases List.mem_append.mp member with inFirst | later
    · obtain ⟨entry, _, rfl⟩ := List.mem_map.mp inFirst
      exact ⟨first, entry.2, rfl⟩
    · rcases List.mem_append.mp later with inSecond | inOthers
      · obtain ⟨entry, _, rfl⟩ := List.mem_map.mp inSecond
        exact ⟨second, entry.2, rfl⟩
      · exact only event inOthers
  · exact runSteps_append_eq_some.mpr ⟨afterFirst, runFirst,
      runSteps_append_eq_some.mpr ⟨afterSecond, runSecond, runOthers⟩⟩
  · intro write sent found node member foreign
    have entryMember : (sent, write) ∈ state.writes.zipIdx := by
      rw [writesFinal] at found
      exact List.mem_zipIdx_iff_getElem?.mpr found
    by_cases isFirst : node = first
    · subst isFirst
      exact deliveredOthers.received _ _ <| deliveredSecond.received _ _ <|
        knownFirst (sent, write) entryMember
    · by_cases isSecond : node = second
      · subst isSecond
        exact deliveredOthers.received _ _ <|
          knownSecond (sent, write) ((sameEntries _).mpr entryMember)
      · refine allOthers write sent found node ?_ foreign
        simp [others, member, isFirst, isSecond]
  · intro agree
    have same := agree first firstMember second secondMember
    rw [deliveredOthers.stored first firstOut,
      deliveredOthers.stored second secondOut,
      deliveredSecond.stored first (by simp [different]),
      storedFirst, held, storedSecond] at same
    exact avoids same.symm

/-- Replicas agree in every run whose accepted versions have a winner; from a
state without one, some order of the deliveries brings two replicas apart that
had received nothing yet. -/
theorem agree_of_winner_and_diverge_without {events : List KeyEvent}
    {state : KeyCluster} {nodes : List String}
    (room : StepsMeet step RoomToCount initial events)
    (reached : runSteps step initial events = some state) :
    (state.HasWinner ∨ state.writes = [] →
      AllDelivered nodes state → Agree nodes state) ∧
    (¬ (state.HasWinner ∨ state.writes = []) →
      ∀ first second : String,
        first ∈ nodes → second ∈ nodes → first ≠ second →
        state.received first = [] → state.received second = [] →
        ∃ deliveries final, OnlyDeliveries deliveries ∧
          runSteps step state deliveries = some final ∧
          AllDelivered nodes final ∧ ¬ Agree nodes final) := by
  constructor
  · rintro (decided | noWrites) delivered
    · exact agree_of_hasWinner room reached delivered decided
    · exact agree_of_no_writes (winnerKept_of_run room reached).traced
        noWrites nodes
  · intro undecided first second firstMember secondMember different
      firstNew secondNew
    rw [not_or] at undecided
    exact exists_divergence (winnerKept_of_run room reached).traced
      firstMember secondMember different firstNew secondNew
      undecided.1 undecided.2

/-- Two nodes create the key in the same millisecond. -/
def tiedTimestamps : List KeyEvent :=
  [.put "A" "alice" ∅ 5, .put "B" "alice" ∅ 5]

/-- Delivering both messages leaves each node with its own version. -/
theorem tiedTimestamps_diverge :
    ∃ final, runSteps step initial
        (tiedTimestamps ++ [.deliver "B" 0, .deliver "A" 1]) = some final ∧
      AllDelivered ["A", "B"] final ∧ ¬ Agree ["A", "B"] final :=
  ⟨_, runSteps_eq_some_runResult _ _ _ (by decide), by decide, by decide⟩

/-- The same two writes a millisecond apart. -/
def orderedTimestamps : List KeyEvent :=
  [.put "A" "alice" ∅ 5, .put "B" "alice" ∅ 6, .deliver "B" 0,
    .deliver "A" 1]

theorem orderedTimestamps_agree_and_tied_diverge :
    (∃ final, runSteps step initial orderedTimestamps = some final ∧
      Agree ["A", "B"] final) ∧
    ∃ state deliveries final,
      runSteps step initial tiedTimestamps = some state ∧
      OnlyDeliveries deliveries ∧
      runSteps step state deliveries = some final ∧
      AllDelivered ["A", "B", "C", "D"] final ∧
      ¬ Agree ["A", "B", "C", "D"] final := by
  constructor
  · have reached := runSteps_eq_some_runResult step initial orderedTimestamps
      (by decide)
    have decided := hasWinner_of_laterTimestamps (by decide) (by decide)
      reached (by decide)
    exact ⟨_, reached,
      (agree_of_winner_and_diverge_without (by decide) reached).1
        (Or.inl decided) (by decide)⟩
  · have reached := runSteps_eq_some_runResult step initial tiedTimestamps
      (by decide)
    let state := runResult step initial tiedTimestamps (by decide)
    have undecided : ¬ (state.HasWinner ∨ state.writes = []) := by
      rintro (⟨winner, wins⟩ | noWrites)
      · obtain ⟨write, member, rfl⟩ := wins.mem
        have rival : ∀ write ∈ state.writes, ∃ other ∈ state.writes,
            other.version ≠ write.version ∧
              write.version.beats other.version = false := by
          decide
        obtain ⟨other, otherMember, different, loses⟩ := rival write member
        have beats := wins.beats other.version ⟨other, otherMember, rfl⟩
          different
        rw [mergeContest_beats, loses] at beats
        cases beats
      · exact absurd noWrites (by decide)
    have listed : "C" ∈ ["A", "B", "C", "D"] ∧ "D" ∈ ["A", "B", "C", "D"] := by
      decide
    obtain ⟨deliveries, final, divergence⟩ :=
      (agree_of_winner_and_diverge_without (by decide) reached).2 undecided
        "C" "D" listed.1 listed.2 (by decide) (by decide) (by decide)
    exact ⟨state, deliveries, final, reached, divergence⟩

end KeyCluster

end DynaRust.Replication
