import DynaRust.Foundation.Delivery
import DynaRust.Network.Cluster

/-!
# Senders

The tasks that the handlers spawn to send their requests.  A task takes one of
the 20 permits of its node, repeats its request until the answer is a success
or its attempts are used up, and gives the permit back.  `join_cluster` takes
a permit for its gossip, if one is free.

A request that timed out at its sender may still be handled later.
-/

namespace DynaRust.Network

open DynaRust.Foundation DynaRust.Security DynaRust.Storage

/-- `Semaphore::new(20)`. -/
def maxPermits : Nat := 20

/-- `let mut retries = 3` where there is a loop. -/
def FanOut.attempts : FanOut → Nat
  | .putValue _ _ _ => 3
  | .patchValue _ _ _ => 3
  | .deleteValue _ _ => 3
  | .replicateAdminChange _ _ _ => 1
  | .adminDeleteRecord _ _ => 1
  | .access _ _ => 1

/-- `access` sends all its requests at once. -/
def FanOut.usesPermit : FanOut → Bool
  | .access _ _ => false
  | _ => true

/-- Who sends the new messages of a step. -/
structure Sender where
  node : String
  usesPermit : Bool
  attempts : Nat

def Cluster.sender (cluster : Cluster) : ClusterEvent → Option Sender
  | .fanOut index _ =>
      match cluster.tasks[index]? with
      | some (node, .fanOut pending) =>
          some ⟨node, pending.usesPermit, pending.attempts⟩
      | _ => none
  | .finishRead index =>
      (cluster.tasks[index]?).map fun task => ⟨task.1, true, 1⟩
  | _ => none

def Sender.parcel (sender : Sender) (message : Message) :
    Parcel String Message :=
  .fresh sender.node sender.usesPermit sender.attempts message

/-- The fate of messages is up to their senders. -/
def ClusterEvent.isDelivery : ClusterEvent → Bool
  | .deliver _ _ => true
  | .redeliver _ _ => true
  | .lose _ => true
  | _ => false

structure Sending where
  cluster : Cluster
  outbox : Outbox String Message

inductive SendingEvent where
  | cluster (event : ClusterEvent)
  /-- The sender of a request goes on, or the network loses a copy. -/
  | sender (index : Nat) (event : ParcelEvent)
  | handle (index now : Nat)
  | forget (index : Nat)
  /-- `try_acquire_owned` in `join_cluster`. -/
  | spawnGossip (node : String)
  | endGossip (index : Nat)

/-- `resp.status().is_success()` for what the receiver answers. -/
def succeeds (environment : Environment) (cluster : Cluster)
    (message : Message) (now : Nat) : Bool :=
  (handle environment message.target (cluster.storeAt message.target)
    message.header message.content.request now).response.any
      Response.isSuccess

namespace Sending

/-- What an event of the senders looks like from the cluster. -/
def clusterEvents : SendingEvent → List ClusterEvent
  | .cluster event => [event]
  | .handle index now => [.redeliver index now]
  | .forget index => [.lose index]
  | _ => []

def step (environment : Environment) (sending : Sending) :
    SendingEvent → Option Sending
  | .cluster event =>
      if event.isDelivery then none
      else
        (Cluster.step environment sending.cluster event).map fun next =>
          { cluster := next
            outbox := match sending.cluster.sender event with
              | some sender => sending.outbox.post
                  ((Cluster.sentSince sending.cluster next).map sender.parcel)
              | none => sending.outbox }
  | .sender index event =>
      if event.isHandle then none
      else
        (sending.outbox.move index event).map fun outbox =>
          { sending with outbox := outbox }
  | .handle index now =>
      match sending.cluster.messages[index]? with
      | some message =>
          (sending.outbox.move index (.handle
            (succeeds environment sending.cluster message now))).map
              fun outbox =>
                { cluster := Cluster.receive environment sending.cluster
                    message now
                  outbox := outbox }
      | none => none
  | .forget index =>
      (sending.outbox.forget index).map fun outbox =>
        { cluster := { sending.cluster with
            messages := sending.cluster.messages.eraseIdx index }
          outbox := outbox }
  | .spawnGossip node =>
      some { sending with outbox := sending.outbox.borrow node }
  | .endGossip index =>
      (sending.outbox.giveBack index).map fun outbox =>
        { sending with outbox := outbox }

end Sending

theorem FanOut.attempts_pos (pending : FanOut) : 0 < pending.attempts := by
  cases pending <;> exact Nat.succ_pos _

theorem FanOut.attempts_le (pending : FanOut) : pending.attempts ≤ 3 := by
  cases pending <;> simp [attempts]

theorem Cluster.attempts_sender {cluster : Cluster} {event : ClusterEvent}
    {sender : Sender} (sends : cluster.sender event = some sender) :
    0 < sender.attempts ∧ sender.attempts ≤ 3 := by
  cases event with
  | fanOut index active =>
      simp only [Cluster.sender] at sends
      split at sends
      · cases sends
        exact ⟨FanOut.attempts_pos _, FanOut.attempts_le _⟩
      · cases sends
  | finishRead index =>
      obtain ⟨task, -, rfl⟩ := Option.map_eq_some_iff.mp sends
      exact ⟨Nat.one_pos, Nat.succ_le_succ (Nat.zero_le 2)⟩
  | _ =>
      cases sends

/-- The messages of a step other than a delivery are those of its sender. -/
theorem Cluster.messages_of_step {environment : Environment}
    {cluster next : Cluster} {event : ClusterEvent}
    (handler : event.isDelivery = false)
    (taken : Cluster.step environment cluster event = some next) :
    next.messages = cluster.messages ++
      match cluster.sender event with
      | some _ => sentSince cluster next
      | none => [] := by
  cases taken_of_step taken with
  | deliver index now message found =>
      cases handler
  | redeliver index now message found =>
      cases handler
  | lose index =>
      cases handler
  | fanOut index active node pending found known =>
      simp only [Cluster.sender, found, sentSince, List.drop_left]
  | finishRead index node user table key targets answers found =>
      simp only [Cluster.sender, found, Option.map_some, sentSince,
        List.drop_left]
  | _ =>
      exact (List.append_nil _).symm

namespace Sending

variable {environment : Environment} {sending next : Sending}

/-- The messages of the cluster are those that the senders work on. -/
structure Linked (sending : Sending) : Prop where
  messages : sending.cluster.messages =
    sending.outbox.parcels.map Parcel.content
  budgets : ∀ parcel ∈ sending.outbox.parcels, parcel.budget ≤ 3
  balanced : sending.outbox.Balanced maxPermits

/-- A cluster with nothing in flight and all permits free. -/
def start (cluster : Cluster) : Sending where
  cluster := cluster
  outbox := .idle maxPermits

theorem linked_start {cluster : Cluster} (quiet : cluster.messages = []) :
    (start cluster).Linked where
  messages := quiet
  budgets := nofun
  balanced := Outbox.balanced_idle maxPermits

theorem sound_parcel {sender : Sender} (positive : 0 < sender.attempts)
    (message : Message) :
    (sender.parcel message).Sound ∧ (sender.parcel message).phase.held = 0 := by
  refine ⟨Parcel.sound_fresh _ _ positive _, ?_⟩
  rw [Sender.parcel, Parcel.fresh]
  cases sender.usesPermit <;> rfl

/-- An event of a sender changes no request's content. -/
theorem content_move {outbox outbox' : Outbox String Message} {index : Nat}
    {event : ParcelEvent} (taken : outbox.move index event = some outbox') :
    outbox'.parcels.map Parcel.content =
      outbox.parcels.map Parcel.content := by
  obtain ⟨parcel, parcel', found, -, stepped, rfl⟩ :=
    Outbox.move_eq_some.mp taken
  obtain ⟨front, back, split, set, -⟩ := exists_split_of_getElem? found
  simp only [set]
  rw [split, List.map_append, List.map_append, List.map_cons, List.map_cons,
    (Parcel.moved_of_step stepped).content]

theorem budget_move {outbox outbox' : Outbox String Message} {index : Nat}
    {event : ParcelEvent} (taken : outbox.move index event = some outbox')
    (budgets : ∀ parcel ∈ outbox.parcels, parcel.budget ≤ 3) :
    ∀ parcel ∈ outbox'.parcels, parcel.budget ≤ 3 := by
  obtain ⟨parcel, parcel', found, -, stepped, rfl⟩ :=
    Outbox.move_eq_some.mp taken
  intro other member
  rcases List.mem_or_eq_of_mem_set member with before | rfl
  · exact budgets other before
  · rw [(Parcel.moved_of_step stepped).budget]
    exact budgets parcel (List.mem_of_getElem? found)

theorem content_forget {outbox outbox' : Outbox String Message}
    {index : Nat} (taken : outbox.forget index = some outbox') :
    outbox'.parcels.map Parcel.content =
      (outbox.parcels.map Parcel.content).eraseIdx index := by
  rw [Outbox.forget] at taken
  split at taken
  · split at taken
    · cases taken
      exact (List.eraseIdx_map _ _ _).symm
    · cases taken
  · cases taken

theorem mem_of_mem_forget {outbox outbox' : Outbox String Message}
    {index : Nat} (taken : outbox.forget index = some outbox')
    {parcel : Parcel String Message} (member : parcel ∈ outbox'.parcels) :
    parcel ∈ outbox.parcels := by
  rw [Outbox.forget] at taken
  split at taken
  · split at taken
    · cases taken
      exact List.mem_of_mem_eraseIdx member
    · cases taken
  · cases taken

/-- Step lemma: the senders keep to the messages of the cluster. -/
theorem Linked.step {event : SendingEvent}
    (taken : step environment sending event = some next)
    (linked : sending.Linked) : next.Linked := by
  obtain ⟨messages, budgets, balanced⟩ := linked
  cases event with
  | cluster event =>
      simp only [Sending.step] at taken
      split at taken
      · cases taken
      · rename_i handler
        obtain ⟨cluster, stepped, rfl⟩ := Option.map_eq_some_iff.mp taken
        have grown := Cluster.messages_of_step
          (Bool.eq_false_of_not_eq_true handler) stepped
        cases sends : sending.cluster.sender event with
        | none =>
            rw [sends, List.append_nil] at grown
            exact ⟨grown.trans messages, budgets, balanced⟩
        | some sender =>
            rw [sends] at grown
            constructor
            · simp only [Outbox.post, List.map_append, List.map_map]
              rw [grown, messages]
              congr 1
              exact (List.map_id _).symm
            · intro parcel member
              rcases List.mem_append.mp member with before | posted
              · exact budgets parcel before
              · obtain ⟨message, -, rfl⟩ := List.mem_map.mp posted
                exact (Cluster.attempts_sender sends).2
            · refine balanced.post ?_
              intro parcel member
              obtain ⟨message, -, rfl⟩ := List.mem_map.mp member
              exact sound_parcel (Cluster.attempts_sender sends).1 message
  | sender index event =>
      simp only [Sending.step] at taken
      split at taken
      · cases taken
      · obtain ⟨outbox, moved, rfl⟩ := Option.map_eq_some_iff.mp taken
        exact ⟨messages.trans (content_move moved).symm,
          budget_move moved budgets, balanced.move moved⟩
  | handle index now =>
      simp only [Sending.step] at taken
      split at taken
      · rename_i message found
        obtain ⟨outbox, moved, rfl⟩ := Option.map_eq_some_iff.mp taken
        exact ⟨messages.trans (content_move moved).symm,
          budget_move moved budgets, balanced.move moved⟩
      · cases taken
  | forget index =>
      obtain ⟨outbox, forgotten, rfl⟩ := Option.map_eq_some_iff.mp taken
      refine ⟨?_, ?_, balanced.forget forgotten⟩
      · rw [content_forget forgotten, ← messages]
      · intro parcel member
        exact budgets parcel (mem_of_mem_forget forgotten member)
  | spawnGossip node =>
      cases taken
      have same : (sending.outbox.borrow node).parcels =
          sending.outbox.parcels := by
        rw [Outbox.borrow]
        split <;> rfl
      refine ⟨?_, ?_, balanced.borrow node⟩
      · rw [messages, same]
      · rw [same]
        exact budgets
  | endGossip index =>
      obtain ⟨outbox, returned, rfl⟩ := Option.map_eq_some_iff.mp taken
      have same : outbox.parcels = sending.outbox.parcels := by
        rw [Outbox.giveBack] at returned
        split at returned
        · cases returned
          rfl
        · cases returned
      refine ⟨?_, ?_, balanced.giveBack returned⟩
      · rw [messages, same]
      · rw [same]
        exact budgets

/-- Seen from the cluster, an event of the senders is an event or nothing. -/
theorem cluster_step {event : SendingEvent}
    (taken : step environment sending event = some next)
    (linked : sending.Linked) :
    runSteps (Cluster.step environment) sending.cluster
      (clusterEvents event) = some next.cluster := by
  cases event with
  | cluster event =>
      simp only [step] at taken
      split at taken
      · cases taken
      · obtain ⟨cluster, stepped, rfl⟩ := Option.map_eq_some_iff.mp taken
        exact runSteps_cons_eq_some.mpr ⟨cluster, stepped, rfl⟩
  | sender index event =>
      simp only [step] at taken
      split at taken
      · cases taken
      · obtain ⟨outbox, moved, rfl⟩ := Option.map_eq_some_iff.mp taken
        rfl
  | handle index now =>
      simp only [step] at taken
      split at taken
      · rename_i message found
        obtain ⟨outbox, moved, rfl⟩ := Option.map_eq_some_iff.mp taken
        refine runSteps_cons_eq_some.mpr ⟨_, ?_, rfl⟩
        rw [Cluster.step, found]
      · cases taken
  | forget index =>
      obtain ⟨outbox, forgotten, rfl⟩ := Option.map_eq_some_iff.mp taken
      refine runSteps_cons_eq_some.mpr ⟨_, ?_, rfl⟩
      have inside : index < sending.cluster.messages.length := by
        rw [linked.messages, List.length_map]
        rw [Outbox.forget] at forgotten
        split at forgotten
        · rename_i parcel found
          exact (List.getElem?_eq_some_iff.mp found).1
        · cases forgotten
      rw [Cluster.step, if_pos inside]
  | spawnGossip node =>
      cases taken
      rfl
  | endGossip index =>
      obtain ⟨outbox, returned, rfl⟩ := Option.map_eq_some_iff.mp taken
      rfl

theorem linked_run {start final : Sending} {events : List SendingEvent}
    (reached : runSteps (step environment) start events = some final)
    (linked : start.Linked) : final.Linked :=
  runSteps_induction Linked (fun _ _ _ _ taken => Linked.step taken)
    (stepsMeet_true _ _ _) reached linked

theorem cluster_run {start final : Sending} {events : List SendingEvent}
    (reached : runSteps (step environment) start events = some final)
    (linked : start.Linked) :
    runSteps (Cluster.step environment) start.cluster
      (events.flatMap clusterEvents) = some final.cluster := by
  induction events generalizing start with
  | nil =>
      cases reached
      rfl
  | cons event rest inductionHypothesis =>
      obtain ⟨next, taken, finished⟩ := runSteps_cons_eq_some.mp reached
      rw [List.flatMap_cons, runSteps_append_eq_some]
      exact ⟨next.cluster, cluster_step taken linked,
        inductionHypothesis finished (linked.step taken)⟩

/-- With the senders, a cluster makes only runs that it makes without them.  A
request is handled no more often than its budget, nothing is left of it only
after it was handled or lost in every attempt, and all 20 permits of a node
are free or held. -/
theorem senders_refine_cluster {cluster : Cluster} {final : Sending}
    {events : List SendingEvent} (quiet : cluster.messages = [])
    (reached : runSteps (step environment) (start cluster) events =
      some final) :
    runSteps (Cluster.step environment) cluster
        (events.flatMap clusterEvents) = some final.cluster ∧
      final.cluster.messages = final.outbox.parcels.map Parcel.content ∧
      (∀ parcel ∈ final.outbox.parcels,
        parcel.budget ≤ 3 ∧
          parcel.handled + parcel.copies + parcel.attempts ≤ parcel.budget ∧
          (parcel.phase = .finished → parcel.copies = 0 →
            0 < parcel.handled ∨ parcel.lost = parcel.budget)) ∧
      ∀ node, final.outbox.permits node + final.outbox.held node = 20 := by
  have linked := linked_run reached (linked_start quiet)
  refine ⟨cluster_run reached (linked_start quiet), linked.messages, ?_,
    linked.balanced.permits⟩
  intro parcel member
  have sound := linked.balanced.sound parcel member
  refine ⟨linked.budgets parcel member, ?_, sound.handled_or_lost⟩
  have total := sound.total
  omega

/-- Alice's PUT at A reaches A at once; the first attempt at B is lost. -/
def sampleSending : List SendingEvent := [
  .cluster (.client "A" none
    (.putValue Cluster.aliceToken "notes" "n" ∅) 1),
  .cluster (.fanOut 0 ["A", "B"]),
  .sender 0 .acquire,
  .sender 1 .acquire,
  .sender 0 .send,
  .sender 1 .send,
  .handle 0 2,
  .sender 1 .lose,
  .sender 0 .succeed,
  .sender 1 .fail,
  .forget 0]

def sampleSent : Sending :=
  runResult (step Cluster.sampleEnvironment)
    (start (Cluster.initial (Cluster.allActive ["A", "B"]))) sampleSending
    (by decide)

theorem sampleSent_refines :
    sampleSent.outbox.permits "A" = 19 ∧
      runSteps (Cluster.step Cluster.sampleEnvironment)
        (Cluster.initial (Cluster.allActive ["A", "B"]))
        (sampleSending.flatMap clusterEvents) = some sampleSent.cluster :=
  ⟨by decide, (senders_refine_cluster rfl
    (runSteps_eq_some_runResult _ _ _ _)).1⟩

/-! ### Coming to rest -/

/-- No handler goes on, and no node joins. -/
def OnlySenders : SendingEvent → Prop
  | .cluster _ => False
  | .spawnGossip _ => False
  | _ => True

/-- What the senders, the network and the receivers do. -/
def Moves (environment : Environment) (sending next : Sending) : Prop :=
  ∃ event, OnlySenders event ∧ step environment sending event = some next

/-- Nothing is in flight, and all permits are free. -/
def AtRest (sending : Sending) : Prop :=
  sending.cluster.messages = [] ∧ sending.outbox.Empty ∧
    ∀ node, sending.outbox.permits node = 20

theorem works_of_moves (moves : Moves environment sending next) :
    sending.outbox.Works next.outbox := by
  obtain ⟨event, only, taken⟩ := moves
  cases event with
  | cluster event =>
      cases only
  | sender index event =>
      simp only [step] at taken
      split at taken
      · cases taken
      · obtain ⟨outbox, moved, rfl⟩ := Option.map_eq_some_iff.mp taken
        exact .move index event moved
  | handle index now =>
      simp only [step] at taken
      split at taken
      · obtain ⟨outbox, moved, rfl⟩ := Option.map_eq_some_iff.mp taken
        exact .move index _ moved
      · cases taken
  | forget index =>
      obtain ⟨outbox, forgotten, rfl⟩ := Option.map_eq_some_iff.mp taken
      exact .forget index forgotten
  | spawnGossip node =>
      cases only
  | endGossip index =>
      obtain ⟨outbox, returned, rfl⟩ := Option.map_eq_some_iff.mp taken
      exact .giveBack index returned

theorem exists_moves (linked : sending.Linked) (notRest : ¬ sending.AtRest) :
    ∃ next, Moves environment sending next := by
  have notEmpty : ¬ sending.outbox.Empty := by
    intro empty
    refine notRest ⟨?_, empty, linked.balanced.permits_of_empty empty⟩
    rw [linked.messages, empty.1, List.map_nil]
  rcases Outbox.busy_of_not_empty (by decide) linked.balanced notEmpty with
    ⟨index, event, notHandle, enabled⟩ | ⟨index, enabled⟩ | ⟨index, enabled⟩
  · obtain ⟨outbox, moved⟩ := Option.isSome_iff_exists.mp enabled
    refine ⟨{ sending with outbox := outbox }, .sender index event,
      trivial, ?_⟩
    rw [step, if_neg (Bool.eq_false_iff.mp notHandle), moved,
      Option.map_some]
  · obtain ⟨outbox, forgotten⟩ := Option.isSome_iff_exists.mp enabled
    exact ⟨_, .forget index, trivial, by rw [step, forgotten]; rfl⟩
  · obtain ⟨outbox, returned⟩ := Option.isSome_iff_exists.mp enabled
    exact ⟨_, .endGossip index, trivial, by rw [step, returned]; rfl⟩

/-- However the senders, the network and the receivers go on, and whatever is
lost, nothing is in flight after finitely many events, and all permits have
come back. -/
theorem comes_to_rest {cluster : Cluster} {final : Sending}
    {events : List SendingEvent} (quiet : cluster.messages = [])
    (reached : runSteps (step environment) (start cluster) events =
      some final) :
    Inevitable (Moves environment) AtRest final := by
  refine Inevitable.of_weight Linked (fun sending => sending.outbox.weight)
    ?_ ?_ ?_ (linked_run reached (linked_start quiet))
  · rintro sending next ⟨event, -, taken⟩ linked
    exact linked.step taken
  · intro sending next moves
    exact (works_of_moves moves).weight_lt
  · intro sending linked notRest
    exact exists_moves linked notRest

theorem sampleSent_comes_to_rest :
    ¬ sampleSent.AtRest ∧
      Inevitable (Moves Cluster.sampleEnvironment) AtRest sampleSent := by
  refine ⟨?_, comes_to_rest rfl (runSteps_eq_some_runResult _ _ _ _)⟩
  intro atRest
  exact absurd (atRest.2.2 "A") (by decide)

end Sending

end DynaRust.Network
