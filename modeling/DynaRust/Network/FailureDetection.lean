import DynaRust.Network.Deployment
import DynaRust.Network.Silence
import Mathlib.Data.Prod.Lex

/-!
# Failure detection

A node probes others directly and, when that fails, through helpers.  What a
deployment lists about a node comes from joins and probes, however often it
was gossiped.  A failure is not spread by gossip, because its heartbeat is not
newer, so every node has to find it out on its own.
-/

namespace DynaRust.Network

open DynaRust.Foundation DynaRust.Storage

/-! ## Probes -/

/-- Which requests are answered in time, from node to node. -/
abbrev Links := String → String → Bool

/-- `heartbeat` answers whoever gets through. -/
def heartbeat : Response :=
  ⟨200, .status "ok"⟩

/-- Respond to indirect ping requests by pinging the target node. -/
def indirectPing (links : Links) (helper target : String) : Response :=
  if links helper target && heartbeat.isSuccess then ⟨200, .status "ok"⟩
  else ⟨503, .status "failed"⟩

/-- `success` after the direct heartbeat and the indirect pings. -/
def probeSucceeds (links : Links) (currentAddr target : String)
    (helpers : List String) : Bool :=
  links currentAddr target && heartbeat.isSuccess ||
    helpers.any fun helper =>
      links currentAddr helper && (indirectPing links helper target).isSuccess

/-- Nobody reached the target. -/
theorem probeSucceeds_eq_false {links : Links} {currentAddr target : String}
    {helpers : List String} :
    probeSucceeds links currentAddr target helpers = false ↔
      links currentAddr target = false ∧
        ∀ helper ∈ helpers, links currentAddr helper = true →
          links helper target = false := by
  have succeeds : heartbeat.isSuccess = true := by decide
  have indirect : ∀ helper, (indirectPing links helper target).isSuccess =
      links helper target := by
    intro helper
    rw [indirectPing, succeeds, Bool.and_true]
    cases links helper target <;> decide
  simp [probeSucceeds, succeeds, indirect]

/-- At most two others are asked.  They were listed as Active when they were
drawn; the membership may have changed since. -/
def AsksHelpers (currentAddr target : String) (helpers : List String) :
    Prop :=
  helpers.length ≤ 2 ∧ helpers.Nodup ∧ currentAddr ∉ helpers ∧
    target ∉ helpers

instance (currentAddr target : String) (helpers : List String) :
    Decidable (AsksHelpers currentAddr target helpers) :=
  inferInstanceAs (Decidable (_ ∧ _ ∧ _ ∧ _))

inductive DetectionEvent where
  | deployment (event : DeploymentEvent)
  /-- The end of a round of the loop in `check_node_health`. -/
  | check (node target : String) (helpers : List String) (links : Links)
      (now : Nat)

namespace DetectionEvent

/-- The check with its outcome only. -/
def deploymentEvent : DetectionEvent → DeploymentEvent
  | .deployment event => event
  | .check node target helpers links now =>
      .membership (.probe node target
        (probeSucceeds links node target helpers) now)

end DetectionEvent

namespace Deployment

/-- The deployment with every probe as a check. -/
def detectionStep (environment : Environment) (deployment : Deployment) :
    DetectionEvent → Option Deployment
  | .deployment (.membership (.probe _ _ _ _)) => none
  | .deployment event => step environment deployment event
  | .check node target helpers links now =>
      if AsksHelpers node target helpers then
        step environment deployment
          (DetectionEvent.check node target helpers links now).deploymentEvent
      else none

theorem step_of_detectionStep {environment : Environment}
    {deployment next : Deployment} {event : DetectionEvent}
    (taken : detectionStep environment deployment event = some next) :
    step environment deployment event.deploymentEvent = some next := by
  unfold detectionStep at taken
  split at taken
  · cases taken
  · exact taken
  · split at taken
    · exact taken
    · cases taken

/-! ## Where an entry is listed -/

/-- Some membership, in use or on its way, has the entry. -/
inductive Lists (deployment : Deployment) (subject : String)
    (info : NodeInfo) : Prop where
  | member (holder : String) :
      (deployment.membersOf holder).lookup subject = some info →
      Lists deployment subject info
  | gossip (message : GossipMessage) : message ∈ deployment.gossip →
      message.listing.lookup subject = some info →
      Lists deployment subject info
  | answer (answer : String × Membership) :
      answer ∈ deployment.joinAnswers →
      answer.2.lookup subject = some info →
      Lists deployment subject info

end Deployment

/-- The node was heard: it joined, answered a probe or started again. -/
def DeploymentEvent.Renews (subject : String) (info : NodeInfo) :
    DeploymentEvent → Prop
  | .data _ => False
  | .membership (.probe _ target success now) =>
      target = subject ∧ success = true ∧ info = ⟨.active, now⟩
  | .membership (.join joiner _ now) =>
      joiner = subject ∧ info = ⟨.active, now⟩
  | .membership _ => False
  | .restart node _ now => node = subject ∧ info = ⟨.active, now⟩

theorem lookup_receiveEntry_cases {nodes : Membership} {node subject : String}
    {info found : NodeInfo}
    (listed : (receiveEntry nodes node info).lookup subject = some found) :
    nodes.lookup subject = some found ∨ node = subject ∧ info = found := by
  rw [receiveEntry_eq_ite] at listed
  split at listed
  · rw [HashMap.lookup_insert_eq_ite] at listed
    by_cases same : subject = node
    · rw [if_pos same] at listed
      exact .inr ⟨same.symm, Option.some.inj listed⟩
    · rw [if_neg same] at listed
      exact .inl listed
  · exact .inl listed

/-- Gossip only passes entries on. -/
theorem lookup_receiveEntries_cases
    {entries : List (Sigma fun _ : String => NodeInfo)} {nodes : Membership}
    {subject : String} {found : NodeInfo}
    (listed : (receiveEntries entries nodes).lookup subject = some found) :
    nodes.lookup subject = some found ∨ ⟨subject, found⟩ ∈ entries := by
  induction entries generalizing nodes with
  | nil =>
      exact .inl listed
  | cons entry rest inductionHypothesis =>
      obtain ⟨node, info⟩ := entry
      rcases inductionHypothesis listed with before | later
      · rcases lookup_receiveEntry_cases before with old | ⟨rfl, rfl⟩
        · exact .inl old
        · exact .inr List.mem_cons_self
      · exact .inr (List.mem_cons_of_mem _ later)

theorem lookup_recordProbe_cases {nodes : Membership}
    {target subject : String} {success : Bool} {threshold now : Nat}
    {found : NodeInfo}
    (listed : (recordProbe nodes target success threshold now).lookup subject =
      some found) :
    nodes.lookup subject = some found ∨
      target = subject ∧ (success = true ∧ found = ⟨.active, now⟩ ∨
        success = false ∧ ∃ old, nodes.lookup subject = some old ∧
          found = updateNodeStatus old threshold now) := by
  unfold recordProbe at listed
  split at listed
  · rename_i info old
    by_cases same : subject = target
    · subst same
      cases success with
      | true =>
          rw [if_pos rfl, Finmap.lookup_insert] at listed
          exact .inr ⟨rfl, .inl ⟨rfl, (Option.some.inj listed).symm⟩⟩
      | false =>
          rw [if_neg Bool.false_ne_true, Finmap.lookup_insert] at listed
          exact .inr ⟨rfl, .inr ⟨rfl, info, old,
            (Option.some.inj listed).symm⟩⟩
    · refine .inl ?_
      cases success with
      | true =>
          rwa [if_pos rfl, Finmap.lookup_insert_of_ne _ same] at listed
      | false =>
          rwa [if_neg Bool.false_ne_true,
            Finmap.lookup_insert_of_ne _ same] at listed
  · exact .inl listed

theorem lookup_joinCluster_cases {environment : Environment}
    {nodes : Membership} {request : JoinRequest} {now : Nat}
    {subject : String} {found : NodeInfo}
    (listed : (joinCluster environment nodes request now).1.lookup subject =
      some found) :
    nodes.lookup subject = some found ∨
      request.node = subject ∧ found = ⟨.active, now⟩ := by
  unfold joinCluster at listed
  split at listed
  · exact .inl listed
  · dsimp only at listed
    split at listed
    · exact .inl listed
    · rw [HashMap.lookup_insert_eq_ite] at listed
      by_cases same : subject = request.node
      · rw [if_pos same] at listed
        exact .inr ⟨same.symm, (Option.some.inj listed).symm⟩
      · rw [if_neg same] at listed
        exact .inl listed

theorem joinCluster_ok {environment : Environment} {nodes answered : Membership}
    {request : JoinRequest} {now : Nat}
    (accepted : (joinCluster environment nodes request now).2 =
      .ok answered) :
    (joinCluster environment nodes request now).1 = answered := by
  unfold joinCluster at accepted ⊢
  split at accepted
  · cases accepted
  · cases accepted
    rw [if_neg]
    assumption

namespace Deployment

variable {environment : Environment} {deployment next : Deployment}

theorem lists_setMembers {holder subject : String} {members : Membership}
    {info : NodeInfo}
    (listed : (deployment.setMembers holder members).Lists subject info) :
    deployment.Lists subject info ∨ members.lookup subject = some info := by
  cases listed with
  | member tested found =>
      rw [membersOf_setMembers] at found
      by_cases same : tested = holder
      · rw [if_pos same] at found
        exact .inr found
      · rw [if_neg same] at found
        exact .inl (.member tested found)
  | gossip message member found =>
      exact .inl (.gossip message member found)
  | answer answer member found =>
      exact .inl (.answer answer member found)

/-- What a step can make a deployment list: what it listed before, a node that
was just heard, or the result of a failed probe. -/
inductive Arose (deployment : Deployment) (event : DeploymentEvent)
    (subject : String) (info : NodeInfo) : Prop where
  | before : deployment.Lists subject info →
      Arose deployment event subject info
  | renewed : event.Renews subject info →
      Arose deployment event subject info
  | failed (node : String) (now : Nat) (old : NodeInfo) :
      event = .membership (.probe node subject false now) →
      (deployment.membersOf node).lookup subject = some old →
      info = updateNodeStatus old timeoutThreshold now →
      Arose deployment event subject info

theorem arose_of_lists_erase {index : Nat} {subject : String}
    {info : NodeInfo}
    (listed : ({ deployment with gossip := deployment.gossip.eraseIdx index } :
      Deployment).Lists subject info) : deployment.Lists subject info := by
  cases listed with
  | member holder found =>
      exact .member holder found
  | gossip message member found =>
      exact .gossip message (List.mem_of_mem_eraseIdx member) found
  | answer answer member found =>
      exact .answer answer member found

/-- Step lemma: where the entries come from. -/
theorem arose_of_step {event : DeploymentEvent}
    (taken : step environment deployment event = some next)
    {subject : String} {info : NodeInfo} (listed : next.Lists subject info) :
    deployment.Arose event subject info := by
  cases event with
  | data event =>
      have members := membersOf_step_data taken
      obtain ⟨-, cluster, -, rfl⟩ := step_data_eq_some taken
      refine .before ?_
      cases listed with
      | member holder found =>
          exact .member holder (by rw [← members]; exact found)
      | gossip message member found =>
          exact .gossip message member found
      | answer answer member found =>
          exact .answer answer member found
  | restart node restored now =>
      cases taken
      cases listed with
      | member holder found =>
          by_cases same : holder = node
          · subst same
            simp only [membersOf, restartNode, Function.update_self,
              initialNodes] at found
            rw [HashMap.lookup_insert_eq_ite] at found
            by_cases own : subject = holder
            · rw [if_pos own] at found
              exact .renewed ⟨own.symm, (Option.some.inj found).symm⟩
            · rw [if_neg own] at found
              cases found
          · simp only [membersOf, restartNode,
              Function.update_of_ne same] at found
            exact .before (.member holder found)
      | gossip message member found =>
          exact .before (.gossip message member found)
      | answer answer member found =>
          exact .before (.answer answer (List.mem_of_mem_filter member) found)
  | membership event =>
      cases event with
      | probe node target success now =>
          simp only [step, membershipStep] at taken
          split at taken
          · cases taken
          · cases taken
            rcases lists_setMembers listed with before | probed
            · exact .before before
            · rcases lookup_recordProbe_cases probed with
                old | ⟨rfl, ⟨rfl, rfl⟩ | ⟨rfl, old, found, rfl⟩⟩
              · exact .before (.member node old)
              · exact .renewed ⟨rfl, rfl, rfl⟩
              · exact .failed node now old rfl found rfl
      | gossip node target listing =>
          simp only [step, membershipStep] at taken
          split at taken
          · rename_i enabled
            cases taken
            refine .before ?_
            cases listed with
            | member holder found =>
                exact .member holder found
            | gossip message member found =>
                rcases List.mem_append.mp member with old | new
                · exact .gossip message old found
                · rw [List.mem_singleton.mp new] at found
                  refine .member node ?_
                  rw [← enabled.1]
                  exact found
            | answer answer member found =>
                exact .answer answer member found
          · cases taken
      | receiveGossip index =>
          obtain ⟨message, found, rfl⟩ := Option.map_eq_some_iff.mp taken
          refine .before ?_
          have inFlight := List.mem_of_getElem? found
          rcases lists_setMembers listed with before | received
          · exact arose_of_lists_erase before
          · rw [updateMembership] at received
            split at received
            · rcases lookup_receiveEntries_cases received with old | offered
              · exact .member message.target old
              · exact .gossip message inFlight
                  (AList.mem_lookup_iff.mpr offered)
            · exact .member message.target received
      | loseGossip index =>
          simp only [step, membershipStep] at taken
          split at taken
          · cases taken
            exact .before (arose_of_lists_erase listed)
          · cases taken
      | join joiner seed now =>
          simp only [step, membershipStep] at taken
          split at taken
          · rename_i answered accepted
            cases taken
            have joined : ∀ {found : NodeInfo},
                (joinCluster environment (deployment.membersOf seed)
                  (joinRequest environment joiner) now).1.lookup subject =
                    some found →
                deployment.Arose (.membership (.join joiner seed now)) subject
                  found := by
              intro found inserted
              rcases lookup_joinCluster_cases inserted with old | ⟨rfl, rfl⟩
              · exact .before (.member seed old)
              · exact .renewed ⟨rfl, rfl⟩
            rcases lists_setMembers listed with before | inserted
            · cases before with
              | member holder found =>
                  exact .before (.member holder found)
              | gossip message member found =>
                  exact .before (.gossip message member found)
              | answer answer member found =>
                  rcases List.mem_append.mp member with old | new
                  · exact .before (.answer answer old found)
                  · rw [List.mem_singleton.mp new,
                      ← joinCluster_ok accepted] at found
                    exact joined found
            · exact joined inserted
          · cases taken
            exact .before listed
      | finishJoin index =>
          obtain ⟨answer, found, rfl⟩ := Option.map_eq_some_iff.mp taken
          have waiting := List.mem_of_getElem? found
          refine .before ?_
          rcases lists_setMembers listed with before | adopted
          · cases before with
            | member holder found =>
                exact .member holder found
            | gossip message member found =>
                exact .gossip message member found
            | answer other member found =>
                exact .answer other (List.mem_of_mem_eraseIdx member) found
          · rw [adoptNodes, HashMap.lookup_insertAll] at adopted
            rcases Option.or_eq_some_iff.mp adopted with new | ⟨-, old⟩
            · exact .answer answer waiting new
            · exact .member answer.1 old

/-! ## Failures are witnessed -/

/-- A past check in which nobody reached the subject, while the prober held
the given entry. -/
def Failed (past : List (Deployment × DetectionEvent)) (subject : String)
    (held : NodeInfo) (now : Nat) : Prop :=
  ∃ deployment node helpers links,
    (deployment, DetectionEvent.check node subject helpers links now) ∈ past ∧
      (deployment.membersOf node).lookup subject = some held ∧
      links node subject = false ∧
      ∀ helper ∈ helpers, links node helper = true →
        links helper subject = false

/-- Suspect needs a failed check, Down another one of the same heartbeat past
the threshold. -/
def Witnessed (past : List (Deployment × DetectionEvent)) (subject : String)
    (info : NodeInfo) : Prop :=
  match info.status with
  | .active => True
  | .suspect => ∃ now, Failed past subject ⟨.active, info.lastHeartbeat⟩ now
  | .down =>
      (∃ now, Failed past subject ⟨.active, info.lastHeartbeat⟩ now) ∧
        ∃ now, Failed past subject ⟨.suspect, info.lastHeartbeat⟩ now ∧
          timeoutThreshold < silence now info.lastHeartbeat
  | .leaving => False

theorem Failed.mono {past later : List (Deployment × DetectionEvent)}
    {subject : String} {held : NodeInfo} {now : Nat}
    (failed : Failed past subject held now) :
    Failed (past ++ later) subject held now := by
  obtain ⟨state, node, helpers, links, member, facts⟩ := failed
  exact ⟨state, node, helpers, links, List.mem_append_left later member,
    facts⟩

theorem Witnessed.mono {past later : List (Deployment × DetectionEvent)}
    {subject : String} {info : NodeInfo}
    (witnessed : Witnessed past subject info) :
    Witnessed (past ++ later) subject info := by
  obtain ⟨status, lastHeartbeat⟩ := info
  cases status with
  | active =>
      trivial
  | suspect =>
      obtain ⟨now, failed⟩ := witnessed
      exact ⟨now, failed.mono⟩
  | down =>
      obtain ⟨⟨first, failed⟩, second, failedAgain, late⟩ := witnessed
      exact ⟨⟨first, failed.mono⟩, second, failedAgain.mono, late⟩
  | leaving =>
      exact witnessed

theorem status_of_renews {event : DeploymentEvent} {subject : String}
    {info : NodeInfo} (renews : event.Renews subject info) :
    info.status = .active := by
  cases event with
  | data event =>
      cases renews
  | restart node restored now =>
      rw [renews.2]
  | membership event =>
      cases event with
      | probe node target success now =>
          rw [renews.2.2]
      | join joiner seed now =>
          rw [renews.2]
      | _ =>
          cases renews

/-- The result of a failed check is witnessed if the entry before was. -/
theorem witnessed_updateNodeStatus
    {past : List (Deployment × DetectionEvent)} {subject : String}
    {old : NodeInfo} {now : Nat} (witnessed : Witnessed past subject old)
    (failed : Failed past subject old now) :
    Witnessed past subject (updateNodeStatus old timeoutThreshold now) := by
  obtain ⟨status, lastHeartbeat⟩ := old
  cases status with
  | active =>
      exact ⟨now, failed⟩
  | suspect =>
      simp only [updateNodeStatus]
      split
      · rename_i late
        exact ⟨witnessed, now, failed, late⟩
      · exact witnessed
  | down =>
      exact witnessed
  | leaving =>
      exact witnessed

/-- Step lemma. -/
theorem witnessed_step {past : List (Deployment × DetectionEvent)}
    {event : DetectionEvent}
    (taken : detectionStep environment deployment event = some next)
    (witnessed : ∀ subject info, deployment.Lists subject info →
      Witnessed past subject info)
    {subject : String} {info : NodeInfo} (listed : next.Lists subject info) :
    Witnessed (past ++ [(deployment, event)]) subject info := by
  cases arose_of_step (step_of_detectionStep taken) listed with
  | before before =>
      exact (witnessed subject info before).mono
  | renewed renews =>
      have active := status_of_renews renews
      rw [Witnessed, active]
      trivial
  | failed node now old isProbe found updated =>
      cases event with
      | deployment event =>
          cases isProbe
          cases taken
      | check prober target helpers links time =>
          have outcome := isProbe
          simp only [DetectionEvent.deploymentEvent,
            DeploymentEvent.membership.injEq,
            MembershipEvent.probe.injEq] at outcome
          obtain ⟨rfl, rfl, unreached, rfl⟩ := outcome
          rw [updated]
          refine witnessed_updateNodeStatus
            (witnessed _ _ (.member prober found)).mono ?_
          refine ⟨deployment, prober, helpers, links, ?_, found, ?_⟩
          · exact List.mem_append_right past List.mem_cons_self
          · exact probeSucceeds_eq_false.mp unreached

theorem lists_initial {startedAt : String → Nat} {subject : String}
    {info : NodeInfo} (listed : (initial startedAt).Lists subject info) :
    info.status = .active ∧ info.lastHeartbeat = startedAt subject := by
  cases listed with
  | member holder found =>
      simp only [initial, membersOf, Cluster.initial, initialNodes] at found
      rw [HashMap.lookup_insert_eq_ite] at found
      by_cases same : subject = holder
      · rw [if_pos same] at found
        rw [← Option.some.inj found, same]
        exact ⟨rfl, rfl⟩
      · rw [if_neg same] at found
        cases found
  | gossip message member found =>
      cases member
  | answer answer member found =>
      cases member

/-- No node calls another one Suspect or Down, and none gossips it, unless
checks of that heartbeat have failed: the prober and the helpers it reached
did not reach the node, for Down again when the heartbeat was past the
threshold. -/
theorem failures_witnessed {startedAt : String → Nat}
    {events : List DetectionEvent} {final : Deployment}
    (reached : runSteps (detectionStep environment) (initial startedAt)
      events = some final)
    (subject : String) (info : NodeInfo) (listed : final.Lists subject info) :
    Witnessed (runTrace (detectionStep environment) (initial startedAt)
      events) subject info := by
  have remembered : runSteps (withHistory (detectionStep environment))
      ([], initial startedAt) events = some
        (runTrace (detectionStep environment) (initial startedAt) events,
          final) := by
    rw [runSteps_withHistory, reached]
    rfl
  have start : ∀ subject info, (initial startedAt).Lists subject info →
      Witnessed [] subject info := by
    intro subject info listed
    rw [Witnessed, (lists_initial listed).1]
    trivial
  refine runSteps_induction (fun state => ∀ subject info,
    state.2.Lists subject info → Witnessed state.1 subject info)
    ?_ (stepsMeet_true _ _ _) remembered start subject info listed
  rintro ⟨past, deployment⟩ event ⟨grown, next⟩ - taken witnessed subject info
    listed
  obtain ⟨enabled, rfl⟩ := withHistory_eq_some.mp taken
  exact witnessed_step enabled witnessed listed

/-- B joins A and is never reached again. -/
def lostNode : List DetectionEvent := [
  .deployment (.membership (.join "B" "A" 1000)),
  .check "A" "B" [] (fun _ _ => false) 20000,
  .check "A" "B" [] (fun _ _ => false) 30000]

def lostNodeDown : Deployment :=
  runResult (detectionStep Cluster.sampleEnvironment) (initial fun _ => 0)
    lostNode (by decide)

theorem lostNode_witnessed :
    Witnessed (runTrace (detectionStep Cluster.sampleEnvironment)
      (initial fun _ => 0) lostNode) "B" ⟨.down, 1000⟩ := by
  have listed : lostNodeDown.Lists "B" ⟨.down, 1000⟩ :=
    .member "A" (by decide)
  exact failures_witnessed (runSteps_eq_some_runResult _ _ _ _) "B" _ listed

/-! ## A silent node -/

/-- How far a failure has been established. -/
def severity : NodeStatus → Nat
  | .active => 0
  | .suspect => 1
  | .down => 2
  | .leaving => 3

/-- Entries are compared by heartbeat, then by severity. -/
def age (info : NodeInfo) : Nat ×ₗ Nat :=
  toLex (info.lastHeartbeat, severity info.status)

/-- The subject is not heard, and the observer neither starts again nor takes
over the membership of a seed. -/
def IsSilent (subject observer : String) (deployment : Deployment)
    (event : DeploymentEvent) : Prop :=
  (∀ info, ¬ event.Renews subject info) ∧
    (∀ restored now, event ≠ .restart observer restored now) ∧
    ∀ index answer, event = .membership (.finishJoin index) →
      deployment.joinAnswers[index]? = some answer → answer.1 ≠ observer

theorem age_updateNodeStatus (old : NodeInfo) (threshold now : Nat) :
    age old ≤ age (updateNodeStatus old threshold now) := by
  unfold updateNodeStatus
  split
  · rename_i active
    refine Prod.Lex.toLex_le_toLex.mpr (.inr ⟨rfl, ?_⟩)
    rw [active]
    exact Nat.zero_le _
  · rename_i suspect
    split
    · refine Prod.Lex.toLex_le_toLex.mpr (.inr ⟨rfl, ?_⟩)
      rw [suspect]
      exact Nat.le_succ 1
    · exact le_rfl
  · exact le_rfl

/-- Gossip replaces an entry by a newer one only. -/
theorem age_receiveEntries
    {entries : List (Sigma fun _ : String => NodeInfo)} {nodes : Membership}
    {subject : String} {old : NodeInfo}
    (found : nodes.lookup subject = some old) :
    ∃ new, (receiveEntries entries nodes).lookup subject = some new ∧
      age old ≤ age new := by
  induction entries generalizing nodes old with
  | nil =>
      exact ⟨old, found, le_rfl⟩
  | cons entry rest inductionHypothesis =>
      obtain ⟨node, info⟩ := entry
      rw [receiveEntries, receiveEntry_eq_ite]
      split
      · rename_i taken
        by_cases same : subject = node
        · subst same
          have newer : age old ≤ age info := by
            rw [takesOver, found] at taken
            refine Prod.Lex.toLex_le_toLex.mpr (.inl ?_)
            exact of_decide_eq_true (Bool.and_eq_true_iff.mp taken).2
          obtain ⟨new, later, order⟩ := inductionHypothesis
            (Finmap.lookup_insert nodes)
          exact ⟨new, later, newer.trans order⟩
        · refine inductionHypothesis ?_
          rw [Finmap.lookup_insert_of_ne _ same]
          exact found
      · exact inductionHypothesis found

theorem lookup_joinCluster_of_some {nodes : Membership}
    {request : JoinRequest} {now : Nat} {subject : String} {old : NodeInfo}
    (found : nodes.lookup subject = some old) :
    (joinCluster environment nodes request now).1.lookup subject =
      some old := by
  unfold joinCluster
  split
  · exact found
  · dsimp only
    split
    · exact found
    · rename_i absent
      have different : subject ≠ request.node := by
        rintro rfl
        exact absent (Finmap.mem_iff.mpr ⟨old, found⟩)
      rw [Finmap.lookup_insert_of_ne _ different]
      exact found

/-- Step lemma: what the observer lists about a silent subject does not go
back. -/
theorem age_step {event : DeploymentEvent} {subject observer : String}
    (silent : IsSilent subject observer deployment event)
    (taken : step environment deployment event = some next) {old : NodeInfo}
    (found : (deployment.membersOf observer).lookup subject = some old) :
    ∃ new, (next.membersOf observer).lookup subject = some new ∧
      age old ≤ age new := by
  obtain ⟨unheard, stays, keeps⟩ := silent
  have elsewhere : ∀ {holder : String} {members : Membership}
      {between : Deployment},
      between.membersOf observer = deployment.membersOf observer →
      (holder = observer → ∃ new, members.lookup subject = some new ∧
        age old ≤ age new) →
      ∃ new, ((between.setMembers holder members).membersOf observer).lookup
        subject = some new ∧ age old ≤ age new := by
    intro holder members between same here
    rw [membersOf_setMembers]
    by_cases own : observer = holder
    · rw [if_pos own]
      exact here own.symm
    · rw [if_neg own, same]
      exact ⟨old, found, le_rfl⟩
  cases event with
  | data event =>
      rw [membersOf_step_data taken]
      exact ⟨old, found, le_rfl⟩
  | restart node restored now =>
      cases taken
      have different : observer ≠ node := by
        rintro rfl
        exact stays restored now rfl
      simp only [membersOf, restartNode, Function.update_of_ne different]
      exact ⟨old, found, le_rfl⟩
  | membership event =>
      cases event with
      | probe node target success now =>
          simp only [step, membershipStep] at taken
          split at taken
          · cases taken
          · cases taken
            refine elsewhere rfl ?_
            rintro rfl
            by_cases same : target = subject
            · subst same
              have failed : success = false := by
                cases success with
                | true =>
                    exact absurd ⟨rfl, rfl, rfl⟩ (unheard ⟨.active, now⟩)
                | false =>
                    rfl
              refine ⟨updateNodeStatus old timeoutThreshold now, ?_,
                age_updateNodeStatus old _ now⟩
              simp only [recordProbe, found, failed, Bool.false_eq_true,
                if_false, Finmap.lookup_insert]
            · refine ⟨old, ?_, le_rfl⟩
              unfold recordProbe
              split
              · split <;>
                  rw [Finmap.lookup_insert_of_ne _ (Ne.symm same), found]
              · exact found
      | gossip node target listing =>
          simp only [step, membershipStep] at taken
          split at taken
          · cases taken
            exact ⟨old, found, le_rfl⟩
          · cases taken
      | receiveGossip index =>
          obtain ⟨message, -, rfl⟩ := Option.map_eq_some_iff.mp taken
          refine elsewhere rfl ?_
          rintro rfl
          rw [updateMembership]
          split
          · exact age_receiveEntries found
          · exact ⟨old, found, le_rfl⟩
      | loseGossip index =>
          simp only [step, membershipStep] at taken
          split at taken
          · cases taken
            exact ⟨old, found, le_rfl⟩
          · cases taken
      | join joiner seed now =>
          simp only [step, membershipStep] at taken
          split at taken
          · cases taken
            refine elsewhere rfl ?_
            rintro rfl
            exact ⟨old, lookup_joinCluster_of_some found, le_rfl⟩
          · cases taken
            exact ⟨old, found, le_rfl⟩
      | finishJoin index =>
          obtain ⟨answer, waiting, rfl⟩ := Option.map_eq_some_iff.mp taken
          refine elsewhere rfl ?_
          intro own
          exact absurd own (keeps index answer rfl waiting)

/-- The observer has the newest heartbeat of the subject that is listed
anywhere, with the given severity at least. -/
structure Observes (subject observer : String) (heartbeat severe : Nat)
    (deployment : Deployment) : Prop where
  held : ∃ info, (deployment.membersOf observer).lookup subject = some info ∧
    info.lastHeartbeat = heartbeat ∧ severe ≤ severity info.status
  newest : ∀ info, deployment.Lists subject info →
    info.lastHeartbeat ≤ heartbeat ∧ info.status ≠ .leaving

theorem updateNodeStatus_lastHeartbeat (old : NodeInfo)
    (threshold now : Nat) :
    (updateNodeStatus old threshold now).lastHeartbeat =
      old.lastHeartbeat := by
  unfold updateNodeStatus
  split
  · rfl
  · split <;> rfl
  · rfl

theorem updateNodeStatus_ne_leaving {old : NodeInfo} {threshold now : Nat}
    (notLeaving : old.status ≠ .leaving) :
    (updateNodeStatus old threshold now).status ≠ .leaving := by
  unfold updateNodeStatus
  split
  · nofun
  · split
    · nofun
    · exact notLeaving
  · exact notLeaving

theorem newest_step {event : DeploymentEvent} {subject observer : String}
    {heartbeat : Nat} (silent : IsSilent subject observer deployment event)
    (taken : step environment deployment event = some next)
    (newest : ∀ info, deployment.Lists subject info →
      info.lastHeartbeat ≤ heartbeat ∧ info.status ≠ .leaving) :
    ∀ info, next.Lists subject info →
      info.lastHeartbeat ≤ heartbeat ∧ info.status ≠ .leaving := by
  intro info listed
  cases arose_of_step taken listed with
  | before before =>
      exact newest info before
  | renewed renews =>
      exact absurd renews (silent.1 info)
  | failed node now old isProbe found updated =>
      obtain ⟨bound, notLeaving⟩ := newest old (.member node found)
      rw [updated, updateNodeStatus_lastHeartbeat]
      exact ⟨bound, updateNodeStatus_ne_leaving notLeaving⟩

theorem Observes.step {event : DeploymentEvent} {subject observer : String}
    {heartbeat severe : Nat}
    (silent : IsSilent subject observer deployment event)
    (taken : Deployment.step environment deployment event = some next)
    (observes : Observes subject observer heartbeat severe deployment) :
    Observes subject observer heartbeat severe next := by
  obtain ⟨⟨old, found, same, severeOld⟩, newest⟩ := observes
  have newestNext := newest_step silent taken newest
  obtain ⟨new, foundNext, order⟩ := age_step silent taken found
  have bound := (newestNext new (.member observer foundNext)).1
  refine ⟨⟨new, foundNext, ?_⟩, newestNext⟩
  rcases Prod.Lex.toLex_le_toLex.mp order with newer | ⟨equal, severer⟩
  · have less : old.lastHeartbeat < new.lastHeartbeat := newer
    omega
  · have equal' : old.lastHeartbeat = new.lastHeartbeat := equal
    exact ⟨equal'.symm.trans same, severeOld.trans severer⟩

theorem Observes.run {events : List DeploymentEvent}
    {subject observer : String} {heartbeat severe : Nat}
    {start final : Deployment}
    (silent : StepsMeet (Deployment.step environment)
      (IsSilent subject observer) start events)
    (reached : runSteps (Deployment.step environment) start events =
      some final)
    (observes : Observes subject observer heartbeat severe start) :
    Observes subject observer heartbeat severe final :=
  runSteps_induction (Observes subject observer heartbeat severe)
    (fun _ _ _ silent taken => Observes.step silent taken) silent reached
    observes

/-- A failed probe makes an Active entry Suspect, and a Suspect one Down when
the threshold has passed. -/
theorem Observes.probe {subject observer : String}
    {heartbeat severe now : Nat} (low : severe < 2)
    (due : severe = 1 → timeoutThreshold < silence now heartbeat)
    (silent : IsSilent subject observer deployment
      (.membership (.probe observer subject false now)))
    (taken : Deployment.step environment deployment
      (.membership (.probe observer subject false now)) = some next)
    (observes : Observes subject observer heartbeat severe deployment) :
    Observes subject observer heartbeat (severe + 1) next := by
  have newest := (observes.step silent taken).newest
  obtain ⟨info, found, same, severeOld⟩ := observes.held
  refine ⟨?_, newest⟩
  simp only [Deployment.step, membershipStep] at taken
  split at taken
  · cases taken
  · cases taken
    refine ⟨updateNodeStatus info timeoutThreshold now, ?_, ?_, ?_⟩
    · rw [membersOf_setMembers, if_pos rfl]
      simp only [recordProbe, found, Bool.false_eq_true, if_false,
        Finmap.lookup_insert]
    · rw [updateNodeStatus_lastHeartbeat, same]
    · obtain ⟨status, lastHeartbeat⟩ := info
      cases status with
      | active =>
          exact Nat.succ_le_succ severeOld
      | suspect =>
          cases same
          simp only [updateNodeStatus]
          split
          · exact Nat.succ_le_of_lt low
          · rename_i early
            have zero : severe ≠ 1 := fun one => early (due one)
            have small : severe ≤ 1 := severeOld
            dsimp only [severity]
            omega
      | down =>
          exact Nat.succ_le_of_lt low
      | leaving =>
          exact Nat.succ_le_of_lt (low.trans (Nat.lt_succ_self 2))

/-- A node that nobody hears from any more is Down for good at an observer
that had its newest heartbeat, once the observer has probed it twice, the
second time past the threshold, whatever is gossiped, delayed or lost. -/
theorem silent_node_stays_down {subject observer : String}
    {heartbeat first second : Nat} {start final : Deployment}
    {before between after : List DeploymentEvent}
    (observes : Observes subject observer heartbeat 0 start)
    (silent : StepsMeet (Deployment.step environment)
      (IsSilent subject observer) start
      (before ++ .membership (.probe observer subject false first) ::
        (between ++ .membership (.probe observer subject false second) ::
          after)))
    (late : timeoutThreshold < silence second heartbeat)
    (reached : runSteps (Deployment.step environment) start
      (before ++ .membership (.probe observer subject false first) ::
        (between ++ .membership (.probe observer subject false second) ::
          after)) = some final) :
    (final.membersOf observer).lookup subject = some ⟨.down, heartbeat⟩ := by
  obtain ⟨atFirst, reachedFirst, restFirst⟩ :=
    runSteps_append_eq_some.mp reached
  obtain ⟨silentBefore, silentFirst⟩ := stepsMeet_append reachedFirst silent
  obtain ⟨suspected, takenFirst, restBetween⟩ :=
    runSteps_cons_eq_some.mp restFirst
  obtain ⟨atSecond, reachedSecond, restSecond⟩ :=
    runSteps_append_eq_some.mp restBetween
  obtain ⟨silentBetween, silentSecond⟩ := stepsMeet_append reachedSecond
    (silentFirst.2 suspected takenFirst)
  obtain ⟨declared, takenSecond, restAfter⟩ :=
    runSteps_cons_eq_some.mp restSecond
  have suspect : Observes subject observer heartbeat 1 suspected :=
    (observes.run silentBefore reachedFirst).probe (by decide) nofun
      silentFirst.1 takenFirst
  have down : Observes subject observer heartbeat 2 declared :=
    (suspect.run silentBetween reachedSecond).probe (by decide)
      (fun _ => late) silentSecond.1 takenSecond
  have still : Observes subject observer heartbeat 2 final :=
    down.run (silentSecond.2 declared takenSecond) restAfter
  obtain ⟨info, found, same, severe⟩ := still.held
  have notLeaving := (still.newest info (.member observer found)).2
  obtain ⟨status, lastHeartbeat⟩ := info
  cases same
  cases status with
  | down =>
      exact found
  | leaving =>
      exact absurd rfl notLeaving
  | active =>
      exact absurd severe (Nat.not_succ_le_zero 1)
  | suspect =>
      exact absurd severe (Nat.not_succ_le_self 1)

/-- B has joined A. -/
def joinedNode : Deployment :=
  runResult (step Cluster.sampleEnvironment) (initial fun _ => 0)
    [.membership (.join "B" "A" 1000)] (by decide)

theorem observes_joinedNode : Observes "B" "A" 1000 0 joinedNode := by
  refine ⟨⟨⟨.active, 1000⟩, by decide, rfl, Nat.zero_le _⟩, ?_⟩
  intro info listed
  have joined : step Cluster.sampleEnvironment (initial fun _ => 0)
      (.membership (.join "B" "A" 1000)) = some joinedNode := rfl
  cases arose_of_step joined listed with
  | before before =>
      obtain ⟨active, early⟩ := lists_initial before
      rw [active, early]
      exact ⟨Nat.zero_le _, nofun⟩
  | renewed renews =>
      rw [renews.2]
      exact ⟨le_rfl, nofun⟩
  | failed node now old isProbe found updated =>
      cases isProbe

/-- Silence that can be read off the event alone. -/
def IsQuiet (subject observer : String) (event : DeploymentEvent) : Prop :=
  (∀ info, ¬ event.Renews subject info) ∧
    (∀ restored now, event ≠ .restart observer restored now) ∧
    ∀ index, event ≠ .membership (.finishJoin index)

theorem IsQuiet.isSilent {subject observer : String}
    {event : DeploymentEvent} (quiet : IsQuiet subject observer event)
    (deployment : Deployment) :
    IsSilent subject observer deployment event :=
  ⟨quiet.1, quiet.2.1, fun index _ same => absurd same (quiet.2.2 index)⟩

/-- What A lists between its probes of B. -/
def betweenProbes : MembershipListing := [
  ⟨"A", .active, 0⟩, ⟨"B", .suspect, 1000⟩, ⟨"C", .active, 25000⟩].toAList

/-- C joins A, is probed and told of B; then it starts again, and A probes B
once more. -/
def silentRun : List DeploymentEvent :=
  [.membership (.join "C" "A" 1500)] ++
    .membership (.probe "A" "B" false 20000) ::
      ([.membership (.probe "A" "C" true 25000),
          .membership (.gossip "A" "C" betweenProbes)] ++
        .membership (.probe "A" "B" false 30000) ::
          [.membership (.receiveGossip 0), .restart "C" ∅ 40000,
            .membership (.probe "A" "B" false 50000)])

theorem joinedNode_stays_down :
    ∃ final,
      runSteps (step Cluster.sampleEnvironment) joinedNode silentRun =
        some final ∧
      (final.membersOf "A").lookup "B" = some ⟨.down, 1000⟩ := by
  have quiet : ∀ event ∈ silentRun, IsQuiet "B" "A" event := by
    simp [silentRun, IsQuiet, DeploymentEvent.Renews]
  have silent : StepsMeet (step Cluster.sampleEnvironment)
      (IsSilent "B" "A") joinedNode silentRun :=
    (stepsMeet_of_forall_mem quiet joinedNode).mono
      fun deployment _ isQuiet => isQuiet.isSilent deployment
  have reached := runSteps_eq_some_runResult (step Cluster.sampleEnvironment)
    joinedNode silentRun (by decide)
  exact ⟨_, reached,
    silent_node_stays_down observes_joinedNode silent (by decide) reached⟩

end Deployment

end DynaRust.Network
