import DynaRust.Network.MembershipRuns

/-!
# When a node is declared Down

The threshold for Down is compared with `now - last_heartbeat`, an unchecked
subtraction of a number that may come from another machine.  The own clock
writes no heartbeat ahead of itself, so the subtraction is sound as long as
none is taken over and the clock does not run back.
-/

namespace DynaRust.Network

open DynaRust.Foundation

/-- The membership map of a node and what its clock reads. -/
structure Watch where
  nodes : Membership
  clock : Nat

/-- What happens to the map and to the clock. -/
inductive WatchEvent where
  | clock (now : Nat)
  | join (request : JoinRequest)
  | gossip (token : Option HeaderValue) (body : Option MembershipListing)
  | adopt (answered : Membership)
  | probe (target : String) (success : Bool) (timeoutThreshold : Nat)

/-- The state after the event; none can fail. -/
def advance (environment : Environment) (state : Watch) :
    WatchEvent → Option Watch
  | .clock now => some { state with clock := now }
  | .join request =>
      some { state with
        nodes :=
          (joinCluster environment state.nodes request state.clock).1 }
  | .gossip token body =>
      some { state with
        nodes := (updateMembership environment state.nodes token body).1 }
  | .adopt answered =>
      some { state with nodes := adoptNodes state.nodes answered }
  | .probe target success timeoutThreshold =>
      some { state with
        nodes := recordProbe state.nodes target success timeoutThreshold
          state.clock }

/-- A node as it starts, before it asks its seed. -/
def Watch.initial (currentNode : String) (start : Nat) : Watch where
  nodes := initialNodes currentNode start
  clock := start

theorem exists_run_advance (environment : Environment) (state : Watch)
    (events : List WatchEvent) :
    ∃ final, runSteps (advance environment) state events = some final := by
  induction events generalizing state with
  | nil =>
      exact ⟨state, rfl⟩
  | cons event rest inductionHypothesis =>
      cases event with
      | _ =>
          exact inductionHypothesis _

/-! ## Real silence -/

/-- A failed probe of a Suspect node subtracts without underflow, and declares
the node Down only if more than the threshold has passed. -/
def DownAfterSilence (state : Watch) : WatchEvent → Prop
  | .probe target success timeoutThreshold =>
      success = false → ∀ info, state.nodes.lookup target = some info →
        info.status = .suspect →
          info.lastHeartbeat ≤ state.clock ∧
            ((updateNodeStatus info timeoutThreshold state.clock).status =
                .down →
              timeoutThreshold < state.clock - info.lastHeartbeat)
  | _ => True

/-- An entry that failed probes can turn Down has no heartbeat ahead of the
clock. -/
def NotAhead (clock : Nat) (info : NodeInfo) : Prop :=
  info.status = .active ∨ info.status = .suspect → info.lastHeartbeat ≤ clock

instance (clock : Nat) (info : NodeInfo) : Decidable (NotAhead clock info) :=
  inferInstanceAs (Decidable (_ → _))

/-- `update_membership` inserts the entry. -/
def takesOver (nodes : Membership) (node : String) (info : NodeInfo) : Bool :=
  !isRefusedName node &&
    match nodes.lookup node with
    | none => decide (nodes.keys.card < maxClusterSize)
    | some existing => decide (info.lastHeartbeat > existing.lastHeartbeat)

/-- No entry that the loop inserts is ahead of the clock. -/
def HearsNoFuture (clock : Nat) :
    List (Sigma fun _ : String => NodeInfo) → Membership → Prop
  | [], _ => True
  | ⟨node, info⟩ :: rest, nodes =>
      (takesOver nodes node info = true → NotAhead clock info) ∧
        HearsNoFuture clock rest (receiveEntry nodes node info)

instance HearsNoFuture.instDecidable (clock : Nat) :
    ∀ (entries : List (Sigma fun _ : String => NodeInfo))
      (nodes : Membership), Decidable (HearsNoFuture clock entries nodes)
  | [], _ => .isTrue trivial
  | ⟨node, info⟩ :: rest, nodes =>
      have := HearsNoFuture.instDecidable clock rest
        (receiveEntry nodes node info)
      inferInstanceAs (Decidable (_ ∧ _))

/-- No heartbeat ahead of the clock is taken over from gossip or from a join
answer, and if the clock runs back, it stays ahead of those in the map. -/
def TrustsNoFuture (environment : Environment) (state : Watch) :
    WatchEvent → Prop
  | .clock now =>
      now < state.clock → ∀ entry ∈ state.nodes.entries, NotAhead now entry.2
  | .gossip token (some incoming) =>
      presentsToken environment.clusterSecret token = true →
        HearsNoFuture state.clock incoming.entries state.nodes
  | .adopt answered =>
      ∀ entry ∈ answered.entries, NotAhead state.clock entry.2
  | _ => True

instance (environment : Environment) (state : Watch) :
    ∀ event, Decidable (TrustsNoFuture environment state event)
  | .clock _ => inferInstanceAs (Decidable (_ → ∀ entry ∈ _, _))
  | .join _ => .isTrue trivial
  | .gossip _ none => .isTrue trivial
  | .gossip _ (some _) => inferInstanceAs (Decidable (_ → _))
  | .adopt _ => inferInstanceAs (Decidable (∀ entry ∈ _, _))
  | .probe _ _ _ => .isTrue trivial

/-! ## No heartbeat ahead of the clock -/

/-- Every entry that can turn Down is behind the clock. -/
def NoFutureHeld (state : Watch) : Prop :=
  ∀ node info, state.nodes.lookup node = some info →
    NotAhead state.clock info

theorem NotAhead.mono {clock later : Nat} {info : NodeInfo}
    (behind : NotAhead clock info) (order : clock ≤ later) :
    NotAhead later info :=
  fun alive => Nat.le_trans (behind alive) order

theorem noFutureHeld_insert {nodes : Membership} {clock : Nat}
    (held : NoFutureHeld ⟨nodes, clock⟩) (node : String) {info : NodeInfo}
    (behind : NotAhead clock info) :
    NoFutureHeld ⟨nodes.insert node info, clock⟩ := by
  intro tested found lookedUp
  rw [HashMap.lookup_insert_eq_ite] at lookedUp
  by_cases same : tested = node
  · rw [if_pos same] at lookedUp
    rw [← Option.some.inj lookedUp]
    exact behind
  · rw [if_neg same] at lookedUp
    exact held tested found lookedUp

theorem receiveEntry_eq_ite (nodes : Membership) (node : String)
    (info : NodeInfo) :
    receiveEntry nodes node info =
      if takesOver nodes node info then nodes.insert node info
      else nodes := by
  unfold receiveEntry takesOver
  cases isRefusedName node with
  | true =>
      rfl
  | false =>
      cases nodes.lookup node with
      | none =>
          by_cases room : nodes.keys.card < maxClusterSize
          · simp [room, Nat.not_le.mpr room]
          · simp [room, Nat.not_lt.mp room]
      | some existing =>
          simp

theorem noFutureHeld_receiveEntries {clock : Nat}
    {entries : List (Sigma fun _ : String => NodeInfo)} {nodes : Membership}
    (hears : HearsNoFuture clock entries nodes)
    (held : NoFutureHeld ⟨nodes, clock⟩) :
    NoFutureHeld ⟨receiveEntries entries nodes, clock⟩ := by
  induction entries generalizing nodes with
  | nil =>
      exact held
  | cons entry rest inductionHypothesis =>
      obtain ⟨node, info⟩ := entry
      refine inductionHypothesis hears.2 ?_
      rw [receiveEntry_eq_ite]
      split
      · rename_i taken
        exact noFutureHeld_insert held node (hears.1 taken)
      · exact held

theorem notAhead_updateNodeStatus {clock : Nat} {info : NodeInfo}
    (behind : NotAhead clock info) (timeoutThreshold : Nat) :
    NotAhead clock (updateNodeStatus info timeoutThreshold clock) := by
  unfold updateNodeStatus
  split
  · rename_i active
    intro _
    exact behind (Or.inl active)
  · rename_i suspect
    split
    · rintro (isActive | isSuspect)
      · cases isActive
      · cases isSuspect
    · exact behind
  · exact behind

theorem noFutureHeld_recordProbe {nodes : Membership} {clock : Nat}
    (held : NoFutureHeld ⟨nodes, clock⟩) (target : String) (success : Bool)
    (timeoutThreshold : Nat) :
    NoFutureHeld
      ⟨recordProbe nodes target success timeoutThreshold clock, clock⟩ := by
  unfold recordProbe
  cases found : nodes.lookup target with
  | none =>
      exact held
  | some info =>
      cases success with
      | true =>
          exact noFutureHeld_insert held target fun _ => Nat.le_refl clock
      | false =>
          exact noFutureHeld_insert held target
            (notAhead_updateNodeStatus (held target info found)
              timeoutThreshold)

theorem noFutureHeld_advance {environment : Environment} {state next : Watch}
    {event : WatchEvent} (trusts : TrustsNoFuture environment state event)
    (taken : advance environment state event = some next)
    (held : NoFutureHeld state) : NoFutureHeld next := by
  cases event with
  | clock now =>
      cases taken
      intro node info found
      rcases Nat.lt_or_ge now state.clock with back | forward
      · exact trusts back ⟨node, info⟩ (Finmap.lookup_eq_some_iff.mp found)
      · exact (held node info found).mono forward
  | join request =>
      cases taken
      rcases joinCluster_cases environment state.nodes request state.clock with
        same | ⟨_, _, result⟩
      · rw [same]
        exact held
      · rw [result]
        exact noFutureHeld_insert held request.node
          fun _ => Nat.le_refl state.clock
  | gossip token body =>
      cases taken
      unfold updateMembership
      split
      · rename_i authentic
        cases body with
        | none =>
            exact held
        | some incoming =>
            exact noFutureHeld_receiveEntries (trusts authentic) held
      · exact held
  | adopt answered =>
      cases taken
      intro node info found
      rw [adoptNodes, HashMap.lookup_insertAll] at found
      cases told : answered.lookup node with
      | none =>
          rw [told] at found
          exact held node info found
      | some adopted =>
          rw [told] at found
          cases Option.some.inj found
          exact trusts ⟨node, info⟩ (Finmap.lookup_eq_some_iff.mp told)
  | probe target success timeoutThreshold =>
      cases taken
      exact noFutureHeld_recordProbe held target success timeoutThreshold

theorem silence_le {now lastHeartbeat : Nat} (order : lastHeartbeat ≤ now) :
    silence now lastHeartbeat ≤ now - lastHeartbeat := by
  have wrapped : now + 2 ^ 128 - lastHeartbeat =
      now - lastHeartbeat + 2 ^ 128 := by
    omega
  rw [silence, wrapped, Nat.add_mod_right]
  exact Nat.mod_le _ _

/-- The comparison of the code is then one of real silence. -/
theorem downAfterSilence_of_noFutureHeld {state : Watch}
    (held : NoFutureHeld state) (event : WatchEvent) :
    DownAfterSilence state event := by
  cases event with
  | probe target success timeoutThreshold =>
      intro _ info found suspect
      have behind : info.lastHeartbeat ≤ state.clock :=
        held target info found (Or.inr suspect)
      refine ⟨behind, ?_⟩
      intro down
      have bound := silence_le behind
      rw [updateNodeStatus, suspect] at down
      by_contra short
      have quiet : ¬ silence state.clock info.lastHeartbeat >
          timeoutThreshold := by
        omega
      simp only [quiet, if_false] at down
      rw [suspect] at down
      cases down
  | _ =>
      trivial

theorem noFutureHeld_initial (currentNode : String) (start : Nat) :
    NoFutureHeld (Watch.initial currentNode start) := by
  have empty : NoFutureHeld ⟨∅, start⟩ := by
    intro node info found
    rw [Finmap.lookup_empty] at found
    cases found
  exact noFutureHeld_insert empty currentNode fun _ => Nat.le_refl start

/-- From a map without future heartbeats, a run that takes over none declares
nodes Down after real silence only. -/
theorem stepsMeet_downAfterSilence {environment : Environment} {state : Watch}
    {events : List WatchEvent} (held : NoFutureHeld state)
    (trusts : StepsMeet (advance environment) (TrustsNoFuture environment)
      state events) :
    StepsMeet (advance environment) DownAfterSilence state events := by
  induction events generalizing state with
  | nil =>
      trivial
  | cons event rest inductionHypothesis =>
      refine ⟨downAfterSilence_of_noFutureHeld held event, ?_⟩
      intro next taken
      exact inductionHypothesis (noFutureHeld_advance trusts.1 taken held)
        (trusts.2 next taken)

/-- A node is declared Down after real silence only, in every run of a started
node that takes over no heartbeat ahead of its clock and whose clock does not
run back behind one. -/
theorem down_after_silence (environment : Environment) (currentNode : String)
    (start : Nat) (events : List WatchEvent)
    (trusts : StepsMeet (advance environment) (TrustsNoFuture environment)
      (Watch.initial currentNode start) events) :
    StepsMeet (advance environment) DownAfterSilence
      (Watch.initial currentNode start) events :=
  stepsMeet_downAfterSilence (noFutureHeld_initial currentNode start) trusts

/-- Gossip from a clock that is not ahead, a join answer and probes. -/
theorem down_after_silence_behind :
    StepsMeet (advance bareEnvironment) DownAfterSilence
      (Watch.initial "a:1" 1000)
      [.gossip (some (.text "default_secret"))
          (some (AList.singleton "b:1" ⟨.active, 900⟩)),
        .adopt ((∅ : Membership).insert "c:1" ⟨.down, 7000⟩),
        .probe "b:1" false 25000,
        .clock 30000,
        .probe "b:1" false 25000] :=
  down_after_silence bareEnvironment "a:1" 1000 _ (by decide)

/-- Two health checks, five seconds apart, after gossip from a clock that is
an hour ahead. -/
def gossipFromTheFuture : List WatchEvent :=
  [.gossip (some (.text "default_secret"))
      (some (AList.singleton "b:1" ⟨.active, 3601000⟩)),
    .clock 6000,
    .probe "b:1" false 25000,
    .clock 11000,
    .probe "b:1" false 25000]

/-- The node is Down after ten seconds, with a threshold of twenty-five. -/
theorem ahead_is_down_at_once :
    isProbed "a:1" "b:1" ⟨.active, 3601000⟩ = true ∧
    isProbed "a:1" "b:1" ⟨.suspect, 3601000⟩ = true ∧
    ((runSteps (advance bareEnvironment) (Watch.initial "a:1" 1000)
        gossipFromTheFuture).bind fun final => final.nodes.lookup "b:1") =
      some ⟨.down, 3601000⟩ ∧
    ¬ StepsMeet (advance bareEnvironment) DownAfterSilence
      (Watch.initial "a:1" 1000) gossipFromTheFuture := by
  refine ⟨by decide, by decide, by decide, ?_⟩
  intro sound
  obtain ⟨_, afterGossip⟩ := sound
  obtain ⟨_, atSix⟩ := afterGossip _ rfl
  obtain ⟨_, afterFirst⟩ := atSix _ rfl
  obtain ⟨_, atEleven⟩ := afterFirst _ rfl
  have second := (atEleven _ rfl).1 rfl ⟨.suspect, 3601000⟩ (by decide) rfl
  exact absurd second.1 (by decide)

/-! ## The condition leaves out nothing else -/

/-- A heartbeat ahead of the clock makes the second of two failed probes
underflow. -/
theorem noFutureHeld_iff_two_probes (environment : Environment)
    (state : Watch) :
    NoFutureHeld state ↔ ∀ target timeoutThreshold,
      StepsMeet (advance environment) DownAfterSilence state
        [.probe target false timeoutThreshold,
          .probe target false timeoutThreshold] := by
  constructor
  · intro held target timeoutThreshold
    exact stepsMeet_downAfterSilence held
      ⟨trivial, fun _ _ => ⟨trivial, fun _ _ => trivial⟩⟩
  · intro sound node info found alive
    obtain ⟨first, second⟩ := sound node 0
    rcases alive with active | suspect
    · have suspected : recordProbe state.nodes node false 0 state.clock =
          state.nodes.insert node { info with status := .suspect } := by
        rw [recordProbe, found]
        simp [updateNodeStatus, active]
      have next := (second _ rfl).1 rfl { info with status := .suspect }
      rw [suspected, Finmap.lookup_insert] at next
      exact (next rfl rfl).1
    · exact (first rfl info found suspect).1

theorem lookup_receiveEntries_of_notMem
    {entries : List (Sigma fun _ : String => NodeInfo)} {node : String}
    (absent : node ∉ entries.keys) (nodes : Membership) :
    (receiveEntries entries nodes).lookup node = nodes.lookup node := by
  induction entries generalizing nodes with
  | nil =>
      rfl
  | cons entry rest inductionHypothesis =>
      rw [List.keys_cons, List.mem_cons, not_or] at absent
      rw [receiveEntries, inductionHypothesis absent.2, receiveEntry_eq_ite]
      split
      · exact Finmap.lookup_insert_of_ne nodes absent.1
      · rfl

/-- What the loop takes over stays, because each node is named once. -/
theorem hearsNoFuture_of_noFutureHeld {clock : Nat}
    {entries : List (Sigma fun _ : String => NodeInfo)}
    (once : entries.NodupKeys) {nodes : Membership}
    (after : NoFutureHeld ⟨receiveEntries entries nodes, clock⟩) :
    HearsNoFuture clock entries nodes := by
  induction entries generalizing nodes with
  | nil =>
      trivial
  | cons entry rest inductionHypothesis =>
      obtain ⟨node, info⟩ := entry
      obtain ⟨absent, onceRest⟩ := List.nodupKeys_cons.mp once
      refine ⟨?_, inductionHypothesis onceRest after⟩
      intro taken
      have kept : (receiveEntries (⟨node, info⟩ :: rest) nodes).lookup node =
          some info := by
        rw [receiveEntries, lookup_receiveEntries_of_notMem absent,
          receiveEntry_eq_ite, if_pos taken, Finmap.lookup_insert]
      exact after node info kept

theorem trustsNoFuture_of_noFutureHeld {environment : Environment}
    {state next : Watch} {event : WatchEvent}
    (taken : advance environment state event = some next)
    (after : NoFutureHeld next) :
    TrustsNoFuture environment state event := by
  cases event with
  | clock now =>
      cases taken
      intro _ entry member
      exact after entry.1 entry.2 (Finmap.lookup_eq_some_iff.mpr member)
  | gossip token body =>
      cases taken
      cases body with
      | none =>
          trivial
      | some incoming =>
          intro authentic
          rw [updateMembership, if_pos authentic] at after
          exact hearsNoFuture_of_noFutureHeld incoming.nodupKeys after
  | adopt answered =>
      cases taken
      intro entry member
      have told : answered.lookup entry.1 = some entry.2 :=
        Finmap.lookup_eq_some_iff.mpr member
      apply after entry.1 entry.2
      rw [adoptNodes, HashMap.lookup_insertAll, told]
      rfl
  | join request =>
      trivial
  | probe target success timeoutThreshold =>
      trivial

/-- In every state of a run, any two failed probes of one node would be sound,
exactly if every step meets the condition. -/
theorem probes_sound_iff_trustsNoFuture (environment : Environment)
    (currentNode : String) (start : Nat) (events : List WatchEvent) :
    Throughout (advance environment) (fun state =>
        ∀ target timeoutThreshold,
          StepsMeet (advance environment) DownAfterSilence state
            [.probe target false timeoutThreshold,
              .probe target false timeoutThreshold])
        (Watch.initial currentNode start) events ↔
      StepsMeet (advance environment) (TrustsNoFuture environment)
        (Watch.initial currentNode start) events := by
  obtain ⟨final, reached⟩ := exists_run_advance environment
    (Watch.initial currentNode start) events
  apply throughout_iff_stepsMeet NoFutureHeld _ _ _
    (stepsMeet_true _ _ events) reached
    (noFutureHeld_initial currentNode start)
  · intro state held
    exact (noFutureHeld_iff_two_probes environment state).mp held
  · intro state event next _ taken held trusts
    exact noFutureHeld_advance trusts taken held
  · intro state event next _ taken _ sound
    exact trustsNoFuture_of_noFutureHeld taken
      ((noFutureHeld_iff_two_probes environment next).mpr sound)

end DynaRust.Network
