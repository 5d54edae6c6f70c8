import DynaRust.Network.Cluster
import DynaRust.Network.Serving

/-!
# The last event of a channel

Handlers change the store and notify the subscribers in two steps, so that an
event can be overtaken by the event of a later change.  As long as that does
not happen to the last change of a key, its subscribers are left with what the
store holds.
-/

namespace DynaRust.Network.ServingNode

open DynaRust.Foundation DynaRust.Security DynaRust.Storage
open SubscriptionManager
open Cluster (sampleEnvironment aliceToken)

variable {environment : Environment} {currentAddr : String}

/-- The change with this number is one of the key. -/
def IsFor (table key : String) (node : ServingNode) (number : Nat) : Prop :=
  ∃ announced, node.changes[number]? = some announced ∧
    announced.table = table ∧ announced.key = key

instance (table key : String) (node : ServingNode) (number : Nat) :
    Decidable (IsFor table key node number) :=
  decidable_of_iff (∃ announced ∈ node.changes[number]?,
    announced.table = table ∧ announced.key = key) Iff.rfl

/-- The change with this number is the last one of the key. -/
def IsLast (table key : String) (node : ServingNode) (number : Nat) : Prop :=
  IsFor table key node number ∧
    ∀ later, number < later → ¬ IsFor table key node later

/-- All changes of the key have been announced. -/
def Quiet (table key : String) (node : ServingNode) : Prop :=
  ∀ waiting ∈ node.pending, ¬ IsFor table key node waiting

/-- Of the changes of the key there is a last one. -/
theorem exists_isLast {table key : String} {node : ServingNode}
    {number : Nat} (isFor : IsFor table key node number) :
    ∃ newest, number ≤ newest ∧ IsLast table key node newest := by
  induction remaining : node.changes.length - number using
    Nat.strong_induction_on generalizing number with
  | _ remaining inductionHypothesis =>
      by_cases last : ∀ later, number < later →
          ¬ IsFor table key node later
      · exact ⟨number, le_rfl, isFor, last⟩
      · push Not at last
        obtain ⟨later, behind, laterFor⟩ := last
        obtain ⟨_, found, _⟩ := id laterFor
        have inside := (List.getElem?_eq_some_iff.mp found).1
        obtain ⟨newest, notBefore, isNewest⟩ :=
          inductionHypothesis (node.changes.length - later) (by omega)
            laterFor rfl
        exact ⟨newest, by omega, isNewest⟩

private theorem getElem?_append_toList {α : Type} (entries : List α)
    (added : Option α) (index : Nat) :
    (entries ++ added.toList)[index]? =
      if index = entries.length then added else entries[index]? := by
  cases added with
  | none =>
      rw [Option.toList_none, List.append_nil]
      split
      · rename_i same
        rw [same]
        exact List.getElem?_eq_none le_rfl
      · rfl
  | some entry =>
      rw [Option.toList_some]
      split
      · rename_i same
        rw [same, List.getElem?_concat_length]
      · rename_i different
        by_cases inside : index < entries.length
        · exact List.getElem?_append_left inside
        · have outside : entries.length < index := by omega
          rw [List.getElem?_eq_none, List.getElem?_eq_none]
          · omega
          · rw [List.length_append, List.length_singleton]
            omega

theorem changes_takeOver (node : ServingNode) (request : Request)
    (outcome : Outcome) (response : Option Response) (number : Nat) :
    (node.takeOver request outcome response).changes[number]? =
      if number = node.changes.length then outcome.notification
      else node.changes[number]? :=
  getElem?_append_toList _ _ _

theorem isFor_takeOver {node : ServingNode} {request : Request}
    {outcome : Outcome} {response : Option Response} {table key : String}
    {number : Nat} :
    IsFor table key (node.takeOver request outcome response) number ↔
      IsFor table key node number ∨
        number = node.changes.length ∧
          ∃ announced, outcome.notification = some announced ∧
            announced.table = table ∧ announced.key = key := by
  simp only [IsFor, changes_takeOver]
  by_cases same : number = node.changes.length
  · simp [same]
  · simp [same]

/-- What holds of every node that has been serving from its start. -/
structure Sound (table key : String) (node : ServingNode) : Prop where
  wired : node.manager.Wired
  distinct : node.pending.Nodup
  known : ∀ number ∈ node.pending, number < node.changes.length
  matching : ∀ number announced, node.changes[number]? = some announced →
    IsLast table key node number →
      announced.event = eventOf (node.store.record table key)

theorem sound_start (table key : String) (store : Store) :
    Sound table key (start store) where
  wired := wired_new
  distinct := List.nodup_nil
  known := fun number member => absurd member List.not_mem_nil
  matching := fun number announced found => by
    simp [start] at found

/-- Changes of other keys leave the record alone. -/
theorem record_takeOver_of_other {node : ServingNode} {request : Request}
    {outcome : Outcome} {response : Option Response} {table key : String}
    (announces : Announces node.store outcome)
    (other : ¬ ∃ announced, outcome.notification = some announced ∧
      announced.table = table ∧ announced.key = key) :
    (node.takeOver request outcome response).store.record table key =
      node.store.record table key := by
  have result : (node.takeOver request outcome response).store =
      outcome.store := rfl
  rw [result]
  unfold Announces at announces
  cases noted : outcome.notification with
  | none =>
      rw [noted] at announces
      exact announces table key
  | some announced =>
      rw [noted] at announces
      apply announces.2 table key
      intro same
      exact other ⟨announced, noted, same.1.symm, same.2.symm⟩

theorem isLast_takeOver_of_other {node : ServingNode} {request : Request}
    {outcome : Outcome} {response : Option Response} {table key : String}
    (other : ¬ ∃ announced, outcome.notification = some announced ∧
      announced.table = table ∧ announced.key = key) (number : Nat) :
    IsLast table key (node.takeOver request outcome response) number ↔
      IsLast table key node number := by
  simp only [IsLast, isFor_takeOver, other, and_false, or_false]

/-- A change of the key that is taken over is its last one. -/
theorem number_of_isLast_takeOver {node : ServingNode} {request : Request}
    {outcome : Outcome} {response : Option Response} {table key : String}
    {number : Nat}
    (own : ∃ announced, outcome.notification = some announced ∧
      announced.table = table ∧ announced.key = key)
    (last : IsLast table key (node.takeOver request outcome response)
      number) :
    number = node.changes.length := by
  have newest : IsFor table key (node.takeOver request outcome response)
      node.changes.length :=
    isFor_takeOver.mpr (Or.inr ⟨rfl, own⟩)
  have notEarlier : ¬ number < node.changes.length := fun earlier =>
    last.2 _ earlier newest
  have inside : number ≤ node.changes.length := by
    rcases isFor_takeOver.mp last.1 with old | isNew
    · obtain ⟨_, there, _⟩ := old
      exact Nat.le_of_lt (List.getElem?_eq_some_iff.mp there).1
    · exact isNew.1.le
  omega

theorem Sound.takeOver {node : ServingNode} {table key : String}
    (sound : Sound table key node) (request : Request) {outcome : Outcome}
    (response : Option Response) (announces : Announces node.store outcome) :
    Sound table key (node.takeOver request outcome response) where
  wired := sound.wired
  distinct := by
    simp only [ServingNode.takeOver]
    cases outcome.notification with
    | none =>
        simpa using sound.distinct
    | some announced =>
        have fresh : node.changes.length ∉ node.pending := fun member =>
          absurd (sound.known _ member) (lt_irrefl _)
        rw [Option.map_some, Option.toList_some]
        refine List.nodup_append.mpr ⟨sound.distinct, by simp, ?_⟩
        intro number member other isNew
        rw [List.mem_singleton.mp isNew]
        intro same
        exact fresh (same ▸ member)
  known := by
    intro number member
    simp only [ServingNode.takeOver, List.mem_append, List.length_append]
      at member ⊢
    rcases member with old | isNew
    · have bound := sound.known number old
      omega
    · cases noted : outcome.notification with
      | none =>
          simp [noted] at isNew
      | some announced =>
          simp only [noted, Option.map_some, Option.toList_some,
            List.mem_singleton, List.length_singleton] at isNew ⊢
          omega
  matching := by
    intro number announced found last
    by_cases own : ∃ announced, outcome.notification = some announced ∧
        announced.table = table ∧ announced.key = key
    · have isNewest := number_of_isLast_takeOver own last
      obtain ⟨noted, same, isTable, isKey⟩ := own
      rw [changes_takeOver, if_pos isNewest, same] at found
      unfold Announces at announces
      rw [same] at announces
      rw [← Option.some.inj found, announces.1, isTable, isKey]
      rfl
    · rw [record_takeOver_of_other announces own]
      have lastBefore := (isLast_takeOver_of_other own number).mp last
      obtain ⟨_, there, _⟩ := id lastBefore.1
      have inside := (List.getElem?_eq_some_iff.mp there).1
      rw [changes_takeOver, if_neg (by omega)] at found
      exact sound.matching number announced found lastBefore

theorem Sound.step {node next : ServingNode} {event : ServingEvent}
    {table key : String} (sound : Sound table key node)
    (taken : step environment currentAddr node event = some next) :
    Sound table key next := by
  cases taken_of_step taken with
  | request header request replicas now =>
      exact sound.takeOver request _
        (announces_handle environment currentAddr node.store header request
          now)
  | remove index removal _ =>
      have before : Sound table key { node with
          removals := node.removals.eraseIdx index } :=
        ⟨sound.wired, sound.distinct, sound.known, sound.matching⟩
      exact before.takeOver _ _
        (announces_deleteRemove node.store removal.table removal.key)
  | notify index number announced _ _ =>
      refine ⟨wired_notify sound.wired _ _ _, ?_, ?_, sound.matching⟩
      · exact sound.distinct.sublist (List.eraseIdx_sublist _ _)
      · intro waiting member
        exact sound.known waiting (List.mem_of_mem_eraseIdx member)
  | subscribers event manager _ made =>
      exact ⟨wired_step made sound.wired, sound.distinct, sound.known,
        sound.matching⟩

/-! ## What a subscriber has heard last -/

/-- Whoever notifies the subscribers of the key announces a change of this
key.  If the key has been changed later, one of those who did is still to
notify. -/
def InOrder (table key : String) (node : ServingNode) : ServingEvent → Prop
  | .notify index =>
      ∀ number announced, node.pending[index]? = some number →
        node.changes[number]? = some announced →
        channelIdentifier announced.table announced.key =
          channelIdentifier table key →
        (announced.table = table ∧ announced.key = key) ∧
          ∀ later, number < later → IsFor table key node later →
            ∃ waiting ∈ node.pending,
              number < waiting ∧ IsFor table key node waiting
  | _ => True

instance (table key : String) (node : ServingNode) :
    ∀ event, Decidable (InOrder table key node event)
  | .notify index =>
      decidable_of_iff (∀ number ∈ node.pending[index]?,
        ∀ announced ∈ node.changes[number]?,
          channelIdentifier announced.table announced.key =
            channelIdentifier table key →
          (announced.table = table ∧ announced.key = key) ∧
            ∀ later < node.changes.length, number < later →
              IsFor table key node later →
              ∃ waiting ∈ node.pending,
                number < waiting ∧ IsFor table key node waiting) <| by
        constructor
        · intro ordered number announced waits found shared
          refine ⟨(ordered number waits announced found shared).1, ?_⟩
          intro later behind isFor
          obtain ⟨_, there, _⟩ := id isFor
          exact (ordered number waits announced found shared).2 later
            (List.getElem?_eq_some_iff.mp there).1 behind isFor
        · intro ordered number waits announced found shared
          refine ⟨(ordered number announced waits found shared).1, ?_⟩
          intro later _ behind isFor
          exact (ordered number announced waits found shared).2 later behind
            isFor
  | .request _ _ _ _ => .isTrue trivial
  | .remove _ => .isTrue trivial
  | .subscribers _ => .isTrue trivial

/-- If all is announced that was changed since change `floor`, the subscriber
at `place` has heard last what the key holds. -/
structure Heard (table key : String) (place floor : Nat)
    (node : ServingNode) : Prop where
  inside : place < node.manager.receivers.length
  last : ∀ subscription,
    node.manager.board[place]? = some (some subscription) →
      subscription.topic = channelIdentifier table key ∧
        ∀ number, floor ≤ number → IsLast table key node number →
          Quiet table key node →
            subscription.received.getLast? =
              some (eventOf (node.store.record table key))

theorem Heard.takeOver {node : ServingNode} {table key : String}
    {place floor : Nat} (heard : Heard table key place floor node)
    (request : Request) {outcome : Outcome} (response : Option Response)
    (announces : Announces node.store outcome) :
    Heard table key place floor (node.takeOver request outcome response) where
  inside := heard.inside
  last := by
    intro subscription there
    obtain ⟨topic, latest⟩ := heard.last subscription there
    refine ⟨topic, ?_⟩
    intro number recent last quiet
    by_cases own : ∃ announced, outcome.notification = some announced ∧
        announced.table = table ∧ announced.key = key
    · obtain ⟨noted, same, _⟩ := id own
      have waits : node.changes.length ∈
          (node.takeOver request outcome response).pending := by
        simp [ServingNode.takeOver, same]
      have isFor : IsFor table key (node.takeOver request outcome response)
          node.changes.length :=
        isFor_takeOver.mpr (Or.inr ⟨rfl, own⟩)
      exact absurd isFor (quiet _ waits)
    · rw [record_takeOver_of_other announces own]
      apply latest number recent
        ((isLast_takeOver_of_other own number).mp last)
      intro waiting member isFor
      have stillWaits : waiting ∈
          (node.takeOver request outcome response).pending :=
        List.mem_append_left _ member
      exact quiet waiting stillWaits (isFor_takeOver.mpr (Or.inl isFor))

/-- A step of the manager adds to what the subscriber at `place` has received
what the step delivers to it. -/
theorem received_of_step {manager next : SubscriptionManager}
    {event : SubscriptionEvent} (wired : manager.Wired)
    (made : manager.step event = some next) {place : Nat}
    (inside : place < manager.receivers.length)
    {subscription : Subscription String KeyEvent}
    (there : next.board[place]? = some (some subscription)) :
    ∃ before, manager.board[place]? = some (some before) ∧
      subscription = before.receive (activity event) := by
  rw [board_step made wired] at there
  have boardInside : place < manager.board.length := by
    rw [length_board]
    exact inside
  have present := List.getElem?_eq_getElem boardInside
  cases held : manager.board[place] with
  | none =>
      rw [held] at present
      rw [Board.next_of_empty present] at there
      cases there
  | some before =>
      rw [held] at present
      refine ⟨before, present, ?_⟩
      rcases Board.next_of_taken present (activity event) with left | stayed
      · rw [left] at there
        cases there
      · rw [stayed] at there
        exact (Option.some.inj (Option.some.inj there)).symm

theorem receivers_of_step {manager next : SubscriptionManager}
    {event : SubscriptionEvent} (made : manager.step event = some next)
    (wired : manager.Wired) :
    manager.receivers.length ≤ next.receivers.length := by
  have boards := congrArg List.length (board_step made wired)
  rw [length_board] at boards
  rw [boards, ← length_board manager]
  cases activity event with
  | subscribe topic =>
      simp [Board.next]
  | publish topic event =>
      simp [Board.next]
  | leave place =>
      simp [Board.next]
  | idle =>
      simp [Board.next]

/-- If nobody else waits for the key, whoever does is the one that has just
notified. -/
theorem eq_of_quiet_eraseIdx {node : ServingNode} {table key : String}
    {index number waiting : Nat} (waits : node.pending[index]? = some number)
    (quiet : ∀ other ∈ node.pending.eraseIdx index,
      ¬ IsFor table key node other)
    (member : waiting ∈ node.pending)
    (isFor : IsFor table key node waiting) : waiting = number := by
  by_contra different
  obtain ⟨position, there⟩ := List.mem_iff_getElem?.mp member
  have elsewhere : position ≠ index := by
    intro same
    rw [same, waits] at there
    exact different (Option.some.inj there).symm
  exact quiet waiting
    (List.mem_eraseIdx_iff_getElem?.mpr ⟨position, elsewhere, there⟩) isFor

/-- The subscriber hears the announced change in order. -/
theorem Heard.notify {node : ServingNode} {table key : String}
    {place floor index number : Nat} {announced : Notification}
    (heard : Heard table key place floor node) (sound : Sound table key node)
    (waits : node.pending[index]? = some number)
    (found : node.changes[number]? = some announced)
    (inOrder : InOrder table key node (.notify index)) :
    Heard table key place floor { node with
      pending := node.pending.eraseIdx index
      manager := node.manager.notify announced.table announced.key
        announced.event } := by
  have made : node.manager.step (.notify announced.table announced.key
      announced.event) = some (node.manager.notify announced.table
        announced.key announced.event) := rfl
  constructor
  · exact lt_of_lt_of_le heard.inside (receivers_of_step made sound.wired)
  · intro subscription there
    obtain ⟨before, thereBefore, received⟩ :=
      received_of_step sound.wired made heard.inside there
    obtain ⟨topic, latest⟩ := heard.last before thereBefore
    have sameTopic : subscription.topic = before.topic := by
      rw [received]
      rfl
    rw [sameTopic]
    refine ⟨topic, ?_⟩
    intro newest recent last quiet
    have others : ∀ waiting ∈ node.pending, IsFor table key node waiting →
        waiting = number :=
      fun waiting member isFor => eq_of_quiet_eraseIdx waits quiet member isFor
    by_cases shared : channelIdentifier announced.table announced.key =
        channelIdentifier table key
    · obtain ⟨own, overtaken⟩ :=
        inOrder number announced waits found shared
      have isFor : IsFor table key node number :=
        ⟨announced, found, own.1, own.2⟩
      have notLater : ¬ number < newest := by
        intro later
        obtain ⟨waiting, member, behind, waitsFor⟩ :=
          overtaken newest later last.1
        have same := others waiting member waitsFor
        omega
      have notEarlier : ¬ newest < number := fun earlier =>
        last.2 number earlier isFor
      have isNewest : number = newest := by
        omega
      have event : announced.event = eventOf (node.store.record table key) :=
        sound.matching number announced found (isNewest ▸ last)
      rw [received, Subscription.receive, activity, Activity.deliveredTo,
        topic, if_pos shared, event]
      exact List.getLast?_concat
    · have silent : (activity (.notify announced.table announced.key
          announced.event)).deliveredTo before.topic = [] := by
        rw [activity, Activity.deliveredTo, topic, if_neg shared]
      rw [received, Subscription.receive_of_deliveredTo_eq_nil silent]
      apply latest newest recent last
      intro waiting member isFor
      have same := others waiting member isFor
      obtain ⟨noted, there, isTable, isKey⟩ := isFor
      rw [same, found] at there
      rw [← Option.some.inj there] at isTable isKey
      exact shared (by rw [isTable, isKey])

theorem Heard.step {node next : ServingNode} {event : ServingEvent}
    {table key : String} {place floor : Nat}
    (heard : Heard table key place floor node) (sound : Sound table key node)
    (inOrder : InOrder table key node event)
    (taken : ServingNode.step environment currentAddr node event =
      some next) :
    Heard table key place floor next := by
  cases taken_of_step taken with
  | request header request replicas now =>
      exact heard.takeOver request _
        (announces_handle environment currentAddr node.store header request
          now)
  | remove index removal _ =>
      have before : Heard table key place floor { node with
          removals := node.removals.eraseIdx index } :=
        ⟨heard.inside, heard.last⟩
      exact before.takeOver _ _
        (announces_deleteRemove node.store removal.table removal.key)
  | notify index number announced waits found =>
      exact heard.notify sound waits found inOrder
  | subscribers event manager notNotify made =>
      refine ⟨lt_of_lt_of_le heard.inside (receivers_of_step made sound.wired),
        ?_⟩
      intro subscription there
      obtain ⟨before, thereBefore, received⟩ :=
        received_of_step sound.wired made heard.inside there
      have silent : (activity event).deliveredTo before.topic = [] := by
        cases event with
        | notify table key announced =>
            exact absurd rfl (notNotify table key announced)
        | _ =>
            rfl
      rw [received, Subscription.receive_of_deliveredTo_eq_nil silent]
      exact heard.last before thereBefore

/-- The run up to a subscription, and what it starts with. -/
theorem heard_of_subscribe {node subscribed : ServingNode}
    {table key : String}
    (taken : ServingNode.step environment currentAddr node
      (.subscribers (.subscribe table key)) = some subscribed) :
    Heard table key node.manager.receivers.length node.changes.length
      subscribed := by
  have made : node.manager.step (.subscribe table key) =
      some (node.manager.subscribe table key) := rfl
  have result : subscribed =
      { node with manager := node.manager.subscribe table key } :=
    (Option.some.inj taken).symm
  rw [result]
  have opened : (node.manager.subscribe table key).board =
      node.manager.board ++ [some ⟨channelIdentifier table key, []⟩] :=
    board_subscribe node.manager table key
  constructor
  · have lengths := congrArg List.length opened
    rw [length_board, List.length_append, length_board,
      List.length_singleton] at lengths
    simp only
    omega
  · intro subscription there
    simp only at there
    rw [opened, ← length_board, List.getElem?_concat_length] at there
    have isNew := Option.some.inj (Option.some.inj there)
    rw [← isNew]
    refine ⟨rfl, ?_⟩
    intro number recent last quiet
    obtain ⟨_, found, _⟩ := last.1
    have inside := (List.getElem?_eq_some_iff.mp found).1
    simp only at inside
    omega

/-- When no request is in progress any more, the last event that was sent to
a subscriber of a key is the stored version, or `Deleted` if there is none,
provided that the key was changed since the subscription and that no change
announced since then had been overtaken for good. -/
theorem last_event_matches {store : Store} {before after : List ServingEvent}
    {node subscribed final : ServingNode} {table key : String}
    (reached : runSteps (step environment currentAddr) (start store) before =
      some node)
    (taken : step environment currentAddr node
      (.subscribers (.subscribe table key)) = some subscribed)
    (continued : runSteps (step environment currentAddr) subscribed after =
      some final)
    (inOrder : StepsMeet (step environment currentAddr) (InOrder table key)
      subscribed after)
    {receiver : Receiver}
    (found : final.manager.receivers[node.manager.receivers.length]? =
      some receiver)
    (live : receiver.live = true)
    (idle : final.pending = [] ∧ final.removals = [])
    (changed : ∃ number, node.changes.length ≤ number ∧
      IsFor table key final number) :
    (final.manager.sentTo receiver).getLast? =
      some (eventOf (final.store.record table key)) := by
  have sound : Sound table key node :=
    runSteps_induction (Sound table key)
      (fun _ _ _ _ enabled holds => holds.step enabled)
      (stepsMeet_true _ _ before) reached (sound_start table key store)
  have both : Sound table key final ∧
      Heard table key node.manager.receivers.length node.changes.length
        final :=
    runSteps_induction
      (fun state => Sound table key state ∧ Heard table key
        node.manager.receivers.length node.changes.length state)
      (fun _ _ _ ordered enabled holds =>
        ⟨holds.1.step enabled, holds.2.step holds.1 ordered enabled⟩)
      inOrder continued ⟨sound.step taken, heard_of_subscribe taken⟩
  have there := board_of_live found live
  obtain ⟨number, recent, isFor⟩ := changed
  obtain ⟨newest, later, last⟩ := exists_isLast isFor
  have quiet : Quiet table key final := by
    intro waiting member
    rw [idle.1] at member
    cases member
  exact (both.2.last _ there).2 newest (le_trans recent later) last quiet

/-! ## Two writes of one owner -/

/-- Alice's note before somebody subscribes to it. -/
def noteAlone : ServingNode :=
  runResult (step sampleEnvironment "A") (start ∅)
    [.request none (.putValue aliceToken "notes" "n" ∅) [] 1, .notify 0]
    (by decide)

def noteFollowed : ServingNode :=
  (step sampleEnvironment "A" noteAlone
    (.subscribers (.subscribe "notes" "n"))).get (by decide)

/-- Two more writes, each announced after the store step of the other. -/
def writtenTwice (first second : Nat) : List ServingEvent :=
  [.request none (.putValue aliceToken "notes" "n" ∅) [] 2,
    .request none (.putValue aliceToken "notes" "n" ∅) [] 3,
    .notify first, .notify second]

def announcedInOrder : ServingNode :=
  runResult (step sampleEnvironment "A") noteFollowed (writtenTwice 0 0)
    (by decide)

def announcedOvertaking : ServingNode :=
  runResult (step sampleEnvironment "A") noteFollowed (writtenTwice 1 0)
    (by decide)

def noteReceiver : Receiver where
  identifier := "notes/n"
  sender := 0
  position := 0
  live := true

theorem announcedInOrder_last :
    (announcedInOrder.manager.sentTo noteReceiver).getLast? =
      some (eventOf (announcedInOrder.store.record "notes" "n")) := by
  have found : announcedInOrder.manager.receivers[
      noteAlone.manager.receivers.length]? = some noteReceiver := by decide
  have changed : ∃ number, noteAlone.changes.length ≤ number ∧
      IsFor "notes" "n" announcedInOrder number := ⟨2, by decide⟩
  exact last_event_matches
    (runSteps_eq_some_runResult (step sampleEnvironment "A") (start ∅) _
      (by decide))
    (Option.some_get _).symm
    (runSteps_eq_some_runResult _ noteFollowed (writtenTwice 0 0)
      (by decide))
    (by decide) found rfl (by decide) changed

/-- The second write is stored, but the event of the first one came last. -/
theorem announcedOvertaking_differs :
    step sampleEnvironment "A" noteAlone
        (.subscribers (.subscribe "notes" "n")) = some noteFollowed ∧
      runSteps (step sampleEnvironment "A") noteFollowed
        (writtenTwice 1 0) = some announcedOvertaking ∧
      announcedOvertaking.pending = [] ∧
      announcedOvertaking.removals = [] ∧
      announcedOvertaking.manager.receivers[
        noteAlone.manager.receivers.length]? = some noteReceiver ∧
      IsFor "notes" "n" announcedOvertaking 2 ∧
      (announcedOvertaking.manager.sentTo noteReceiver).getLast? ≠
        some (eventOf (announcedOvertaking.store.record "notes" "n")) := by
  refine ⟨(Option.some_get _).symm, runSteps_eq_some_runResult _ _ _ _,
    by decide, by decide, by decide, by decide, by decide⟩

end DynaRust.Network.ServingNode
