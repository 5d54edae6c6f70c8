import DynaRust.Foundation.PubSub
import DynaRust.Foundation.Runs
import DynaRust.Network.Http

/-!
# Subscriptions

The channel table of `subscription.rs` under any interleaving of its users.
`notify` sends under the read lock and cleans up under the write lock later;
each of the two is one step.  A receiver may be dropped at any moment.
-/

namespace DynaRust.Storage

open DynaRust.Foundation DynaRust.Network

/-- `format!("{}/{}", table, key)`. -/
def channelIdentifier (table key : String) : String :=
  table ++ "/" ++ key

/-- A receiver reads what its channel carries from the position on at which
it was made. -/
structure Receiver where
  identifier : String
  sender : Nat
  position : Nat
  live : Bool
  deriving DecidableEq

/-- The manager's table of senders, and the tokio channels behind them: a
sender is the number of its channel. -/
structure SubscriptionManager where
  channels : HashMap String Nat
  broadcasts : List (List KeyEvent)
  receivers : List Receiver
  /-- Calls of `notify` between their two locks. -/
  cleanups : List String

namespace SubscriptionManager

/-- `SubscriptionManager::new`. -/
def new : SubscriptionManager where
  channels := ∅
  broadcasts := []
  receivers := []
  cleanups := []

/-- All events ever sent on the channel, oldest first. -/
def sentOn (manager : SubscriptionManager) (sender : Nat) : List KeyEvent :=
  manager.broadcasts[sender]?.getD []

/-- The events that were sent to the receiver. -/
def sentTo (manager : SubscriptionManager) (receiver : Receiver) :
    List KeyEvent :=
  (manager.sentOn receiver.sender).drop receiver.position

def receiverCount (manager : SubscriptionManager) (sender : Nat) : Nat :=
  manager.receivers.countP fun receiver =>
    receiver.live && receiver.sender == sender

/-- `Sender::subscribe`. -/
def attach (manager : SubscriptionManager) (identifier : String)
    (sender : Nat) : SubscriptionManager :=
  { manager with
    receivers := manager.receivers ++
      [⟨identifier, sender, (manager.sentOn sender).length, true⟩] }

/-- `broadcast::channel(16)`, whose sender goes into the table. -/
def openChannel (manager : SubscriptionManager) (identifier : String) :
    SubscriptionManager :=
  { manager with
    channels := manager.channels.insert identifier manager.broadcasts.length
    broadcasts := manager.broadcasts ++ [[]] }

/-- Subscribe to updates for a given table/key. -/
def subscribe (manager : SubscriptionManager) (table key : String) :
    SubscriptionManager :=
  let identifier := channelIdentifier table key
  match manager.channels.lookup identifier with
  | some sender => manager.attach identifier sender
  | none =>
      (manager.openChannel identifier).attach identifier
        manager.broadcasts.length

/-- One more event on the channel. -/
def carry (manager : SubscriptionManager) (sender : Nat) (event : KeyEvent) :
    SubscriptionManager :=
  { manager with
    broadcasts := manager.broadcasts.modify sender (· ++ [event]) }

/-- `Sender::send`, which fails exactly when there are no receivers. -/
def send (manager : SubscriptionManager) (sender : Nat) (event : KeyEvent) :
    Option SubscriptionManager :=
  if manager.receiverCount sender = 0 then none
  else some (manager.carry sender event)

/-- `notify` under the read lock. -/
def notify (manager : SubscriptionManager) (table key : String)
    (event : KeyEvent) : SubscriptionManager :=
  let identifier := channelIdentifier table key
  match manager.channels.lookup identifier with
  | some sender =>
      match manager.send sender event with
      | some sent => sent
      | none => { manager with cleanups := manager.cleanups ++ [identifier] }
  | none => manager

/-- `notify` under the write lock. -/
def cleanup (manager : SubscriptionManager) (identifier : String) :
    SubscriptionManager :=
  match manager.channels.lookup identifier with
  | some sender =>
      if manager.receiverCount sender = 0 then
        { manager with channels := manager.channels.erase identifier }
      else
        manager
  | none => manager

def dropReceiver (manager : SubscriptionManager) (index : Nat) :
    SubscriptionManager :=
  { manager with
    receivers := manager.receivers.modify index fun receiver =>
      { receiver with live := false } }

end SubscriptionManager

inductive SubscriptionEvent where
  | subscribe (table key : String)
  | notify (table key : String) (event : KeyEvent)
  | cleanup (index : Nat)
  | drop (index : Nat)

namespace SubscriptionManager

/-- One atomic step of some user of the manager. -/
def step (manager : SubscriptionManager) :
    SubscriptionEvent → Option SubscriptionManager
  | .subscribe table key => some (manager.subscribe table key)
  | .notify table key event => some (manager.notify table key event)
  | .cleanup index =>
      manager.cleanups[index]?.map fun identifier =>
        { manager with cleanups := manager.cleanups.eraseIdx index }.cleanup
          identifier
  | .drop index =>
      if manager.receivers[index]?.any Receiver.live then
        some (manager.dropReceiver index)
      else
        none

/-! ## Live receivers stay connected -/

/-- Every live receiver hangs on the sender that the table holds for its
identifier, and no two identifiers share a channel. -/
structure Wired (manager : SubscriptionManager) : Prop where
  live : ∀ receiver ∈ manager.receivers, receiver.live = true →
    manager.channels.lookup receiver.identifier = some receiver.sender
  made : ∀ {identifier sender},
    manager.channels.lookup identifier = some sender →
      sender < manager.broadcasts.length
  apart : ∀ {first second sender},
    manager.channels.lookup first = some sender →
      manager.channels.lookup second = some sender → first = second
  behind : ∀ receiver ∈ manager.receivers, receiver.live = true →
    receiver.position ≤ (manager.sentOn receiver.sender).length

theorem wired_new : Wired new where
  live := fun receiver member => by cases member
  made := fun stored => by cases stored
  apart := fun stored => by cases stored
  behind := fun receiver member => by cases member

theorem receiverCount_eq_zero_iff {manager : SubscriptionManager}
    {sender : Nat} :
    manager.receiverCount sender = 0 ↔
      ∀ receiver ∈ manager.receivers, receiver.live = true →
        receiver.sender ≠ sender := by
  simp [receiverCount, List.countP_eq_zero]

@[simp]
theorem sentOn_openChannel (manager : SubscriptionManager)
    (identifier : String) (sender : Nat) :
    (manager.openChannel identifier).sentOn sender =
      manager.sentOn sender := by
  simp only [sentOn, openChannel]
  by_cases inside : sender < manager.broadcasts.length
  · rw [List.getElem?_append_left inside]
  · have outside : manager.broadcasts.length ≤ sender := Nat.le_of_not_lt inside
    rw [List.getElem?_append_right outside, List.getElem?_eq_none outside]
    cases sender - manager.broadcasts.length <;> rfl

theorem sentOn_carry {manager : SubscriptionManager} {sender : Nat}
    (made : sender < manager.broadcasts.length) (event : KeyEvent)
    (other : Nat) :
    (manager.carry sender event).sentOn other =
      if sender = other then manager.sentOn other ++ [event]
      else manager.sentOn other := by
  simp only [sentOn, carry, List.getElem?_modify]
  by_cases same : sender = other
  · subst same
    simp [List.getElem?_eq_getElem made]
  · simp [same]

/-- The board that the manager implements. -/
def board (manager : SubscriptionManager) : Board String KeyEvent :=
  manager.receivers.map fun receiver =>
    if receiver.live then
      some ⟨receiver.identifier, manager.sentTo receiver⟩
    else
      none

@[simp]
theorem length_board (manager : SubscriptionManager) :
    manager.board.length = manager.receivers.length :=
  List.length_map _

theorem board_of_live {manager : SubscriptionManager} {place : Nat}
    {receiver : Receiver} (found : manager.receivers[place]? = some receiver)
    (live : receiver.live = true) :
    manager.board[place]? =
      some (some ⟨receiver.identifier, manager.sentTo receiver⟩) := by
  rw [board, List.getElem?_map, found]
  simp [live]

/-- A step of the manager as an activity at its board. -/
def activity : SubscriptionEvent → Activity String KeyEvent
  | .subscribe table key => .subscribe (channelIdentifier table key)
  | .notify table key event => .publish (channelIdentifier table key) event
  | .cleanup _ => .idle
  | .drop index => .leave index

/-! ### Subscribing -/

theorem wired_openChannel {manager : SubscriptionManager}
    (wired : manager.Wired) {identifier : String}
    (absent : manager.channels.lookup identifier = none) :
    (manager.openChannel identifier).Wired where
  live := fun receiver member live => by
    have stored := wired.live receiver member live
    have other : receiver.identifier ≠ identifier := by
      intro same
      rw [same, absent] at stored
      cases stored
    rw [openChannel, Finmap.lookup_insert_of_ne _ other]
    exact stored
  made := fun {tested sender} stored => by
    simp only [openChannel, HashMap.lookup_insert_eq_ite,
      List.length_append, List.length_singleton] at stored ⊢
    split at stored
    · have same := Option.some.inj stored
      omega
    · have inside := wired.made stored
      omega
  apart := fun {first second sender} firstStored secondStored => by
    simp only [openChannel, HashMap.lookup_insert_eq_ite]
      at firstStored secondStored
    split at firstStored <;> split at secondStored
    · rename_i firstNew secondNew
      rw [firstNew, secondNew]
    · have same := Option.some.inj firstStored
      have inside := wired.made secondStored
      omega
    · have same := Option.some.inj secondStored
      have inside := wired.made firstStored
      omega
    · exact wired.apart firstStored secondStored
  behind := fun receiver member live => by
    rw [sentOn_openChannel]
    exact wired.behind receiver member live

theorem wired_attach {manager : SubscriptionManager}
    (wired : manager.Wired) {identifier : String} {sender : Nat}
    (stored : manager.channels.lookup identifier = some sender) :
    (manager.attach identifier sender).Wired where
  live := fun receiver member live => by
    rcases List.mem_append.mp member with old | new
    · exact wired.live receiver old live
    · rw [List.mem_singleton.mp new]
      exact stored
  made := wired.made
  apart := wired.apart
  behind := fun receiver member live => by
    rcases List.mem_append.mp member with old | new
    · exact wired.behind receiver old live
    · rw [List.mem_singleton.mp new]
      exact le_rfl

theorem board_openChannel (manager : SubscriptionManager)
    (identifier : String) :
    (manager.openChannel identifier).board = manager.board := by
  simp only [board, sentTo, sentOn_openChannel]
  rfl

theorem board_attach (manager : SubscriptionManager) (identifier : String)
    (sender : Nat) :
    (manager.attach identifier sender).board =
      manager.board ++ [some ⟨identifier, []⟩] := by
  have nothing : (manager.sentOn sender).drop
      (manager.sentOn sender).length = [] :=
    List.drop_length
  simp only [board, attach, List.map_append, List.map_singleton, if_true]
  rw [← nothing]
  rfl

theorem subscribe_cases (manager : SubscriptionManager)
    (table key : String) :
    (∃ sender,
      manager.channels.lookup (channelIdentifier table key) = some sender ∧
        manager.subscribe table key =
          manager.attach (channelIdentifier table key) sender) ∨
    (manager.channels.lookup (channelIdentifier table key) = none ∧
      manager.subscribe table key =
        (manager.openChannel (channelIdentifier table key)).attach
          (channelIdentifier table key) manager.broadcasts.length) := by
  cases stored : manager.channels.lookup (channelIdentifier table key) with
  | some sender =>
      left
      exact ⟨sender, rfl, by simp [subscribe, stored]⟩
  | none =>
      right
      exact ⟨rfl, by simp [subscribe, stored]⟩

theorem wired_subscribe {manager : SubscriptionManager}
    (wired : manager.Wired) (table key : String) :
    (manager.subscribe table key).Wired := by
  rcases manager.subscribe_cases table key with
    ⟨sender, stored, result⟩ | ⟨absent, result⟩
  · rw [result]
    exact wired_attach wired stored
  · rw [result]
    apply wired_attach (wired_openChannel wired absent)
    exact Finmap.lookup_insert _

theorem board_subscribe (manager : SubscriptionManager)
    (table key : String) :
    (manager.subscribe table key).board =
      manager.board ++ [some ⟨channelIdentifier table key, []⟩] := by
  rcases manager.subscribe_cases table key with
    ⟨sender, _, result⟩ | ⟨_, result⟩
  · rw [result, board_attach]
  · rw [result, board_attach, board_openChannel]

/-! ### Notifying -/

theorem notify_cases (manager : SubscriptionManager) (table key : String)
    (event : KeyEvent) :
    (manager.channels.lookup (channelIdentifier table key) = none ∧
      manager.notify table key event = manager) ∨
    (∃ sender,
      manager.channels.lookup (channelIdentifier table key) = some sender ∧
        manager.receiverCount sender ≠ 0 ∧
        manager.notify table key event = manager.carry sender event) ∨
    (∃ sender,
      manager.channels.lookup (channelIdentifier table key) = some sender ∧
        manager.receiverCount sender = 0 ∧
        manager.notify table key event = { manager with
          cleanups := manager.cleanups ++ [channelIdentifier table key] }) := by
  cases stored : manager.channels.lookup (channelIdentifier table key) with
  | none =>
      left
      exact ⟨rfl, by simp [notify, stored]⟩
  | some sender =>
      right
      by_cases deserted : manager.receiverCount sender = 0
      · right
        exact ⟨sender, rfl, deserted, by simp [notify, stored, send, deserted]⟩
      · left
        exact ⟨sender, rfl, deserted, by simp [notify, stored, send, deserted]⟩

theorem wired_carry {manager : SubscriptionManager} (wired : manager.Wired)
    {sender : Nat} (made : sender < manager.broadcasts.length)
    (event : KeyEvent) : (manager.carry sender event).Wired where
  live := wired.live
  made := fun {identifier other} stored => by
    have inside : other < manager.broadcasts.length := wired.made stored
    simpa [carry] using inside
  apart := wired.apart
  behind := fun receiver member live => by
    have behind := wired.behind receiver member live
    rw [sentOn_carry made]
    split
    · rw [List.length_append]
      omega
    · exact behind

/-- A live receiver gets what is sent on its own channel, and nothing else. -/
theorem sentTo_carry {manager : SubscriptionManager} {sender : Nat}
    (made : sender < manager.broadcasts.length) (event : KeyEvent)
    {receiver : Receiver}
    (behind : receiver.position ≤ (manager.sentOn receiver.sender).length) :
    (manager.carry sender event).sentTo receiver =
      manager.sentTo receiver ++
        if sender = receiver.sender then [event] else [] := by
  rw [sentTo, sentOn_carry made]
  split
  · rw [List.drop_append_of_le_length behind]
    rfl
  · rw [List.append_nil]
    rfl

theorem wired_notify {manager : SubscriptionManager}
    (wired : manager.Wired) (table key : String) (event : KeyEvent) :
    (manager.notify table key event).Wired := by
  rcases manager.notify_cases table key event with
    ⟨_, result⟩ | ⟨sender, stored, _, result⟩ | ⟨sender, _, _, result⟩
  · rw [result]
    exact wired
  · rw [result]
    exact wired_carry wired (wired.made stored) event
  · rw [result]
    exact ⟨wired.live, wired.made, wired.apart, wired.behind⟩

theorem board_carry {manager : SubscriptionManager} (wired : manager.Wired)
    {identifier : String} {sender : Nat}
    (stored : manager.channels.lookup identifier = some sender)
    (event : KeyEvent) :
    (manager.carry sender event).board =
      manager.board.next (.publish identifier event) := by
  rw [board, board, Board.next, List.map_map]
  apply List.map_congr_left
  intro receiver member
  cases live : receiver.live with
  | false =>
      simp [live]
  | true =>
      have same : sender = receiver.sender ↔
          identifier = receiver.identifier := by
        have own := wired.live receiver member live
        constructor
        · intro sameSender
          rw [← sameSender] at own
          exact wired.apart stored own
        · intro sameIdentifier
          rw [← sameIdentifier, stored] at own
          exact Option.some.inj own
      have gets := sentTo_carry (wired.made stored) event
        (wired.behind receiver member live)
      simp [live, gets, same, Subscription.receive, Activity.deliveredTo]

/-- Nobody misses an event for which no live receiver is connected. -/
theorem board_publish_of_unheard {manager : SubscriptionManager}
    {identifier : String}
    (unheard : ∀ receiver ∈ manager.receivers, receiver.live = true →
      receiver.identifier ≠ identifier) (event : KeyEvent) :
    manager.board.next (.publish identifier event) = manager.board := by
  rw [board, Board.next, List.map_map]
  apply List.map_congr_left
  intro receiver member
  cases live : receiver.live with
  | false =>
      simp [live]
  | true =>
      have other := unheard receiver member live
      simp [live, Ne.symm other, Subscription.receive, Activity.deliveredTo]

theorem board_notify {manager : SubscriptionManager} (wired : manager.Wired)
    (table key : String) (event : KeyEvent) :
    (manager.notify table key event).board =
      manager.board.next
        (.publish (channelIdentifier table key) event) := by
  rcases manager.notify_cases table key event with
    ⟨absent, result⟩ | ⟨sender, stored, _, result⟩ |
      ⟨sender, stored, deserted, result⟩
  · rw [result, board_publish_of_unheard]
    intro receiver member live same
    have own := wired.live receiver member live
    rw [same, absent] at own
    cases own
  · rw [result]
    exact board_carry wired stored event
  · rw [result, board_publish_of_unheard]
    · rfl
    · intro receiver member live same
      have own := wired.live receiver member live
      rw [same, stored] at own
      exact receiverCount_eq_zero_iff.mp deserted receiver member live
        (Option.some.inj own).symm

/-! ### Cleaning up -/

theorem cleanup_cases (manager : SubscriptionManager) (identifier : String) :
    manager.cleanup identifier = manager ∨
    (∃ sender, manager.channels.lookup identifier = some sender ∧
      manager.receiverCount sender = 0 ∧
      manager.cleanup identifier = { manager with
        channels := manager.channels.erase identifier }) := by
  cases stored : manager.channels.lookup identifier with
  | none =>
      left
      simp [cleanup, stored]
  | some sender =>
      by_cases deserted : manager.receiverCount sender = 0
      · right
        exact ⟨sender, rfl, deserted, by simp [cleanup, stored, deserted]⟩
      · left
        simp [cleanup, stored, deserted]

theorem wired_cleanup {manager : SubscriptionManager}
    (wired : manager.Wired) (identifier : String) :
    (manager.cleanup identifier).Wired := by
  have kept : ∀ {other sender},
      (manager.channels.erase identifier).lookup other = some sender →
        manager.channels.lookup other = some sender := by
    intro other sender stored
    rw [HashMap.lookup_erase_eq_ite] at stored
    split at stored
    · cases stored
    · exact stored
  rcases manager.cleanup_cases identifier with
    result | ⟨sender, stored, deserted, result⟩
  · rw [result]
    exact wired
  · rw [result]
    refine ⟨?_, fun later => wired.made (kept later),
      fun first second => wired.apart (kept first) (kept second),
      wired.behind⟩
    intro receiver member live
    have own := wired.live receiver member live
    have other : receiver.identifier ≠ identifier := by
      intro same
      rw [same, stored] at own
      exact receiverCount_eq_zero_iff.mp deserted receiver member live
        (Option.some.inj own).symm
    rw [← own]
    exact Finmap.lookup_erase_ne other

theorem board_cleanup (manager : SubscriptionManager) (identifier : String) :
    (manager.cleanup identifier).board = manager.board := by
  rcases manager.cleanup_cases identifier with result | ⟨_, _, _, result⟩
  · rw [result]
  · rw [result]
    rfl

/-! ### Leaving -/

theorem wired_dropReceiver {manager : SubscriptionManager}
    (wired : manager.Wired) (index : Nat) :
    (manager.dropReceiver index).Wired := by
  have kept : ∀ receiver ∈ (manager.dropReceiver index).receivers,
      receiver.live = true → receiver ∈ manager.receivers := by
    intro receiver member live
    obtain ⟨place, found⟩ := List.mem_iff_getElem?.mp member
    simp only [dropReceiver, List.getElem?_modify] at found
    cases before : manager.receivers[place]? with
    | none =>
        simp [before] at found
    | some old =>
        by_cases same : index = place
        · rw [before] at found
          have dead : { old with live := false } = receiver := by
            simpa [same] using found
          rw [← dead] at live
          cases live
        · rw [before] at found
          have unchanged : old = receiver := by
            simpa [same] using found
          rw [← unchanged]
          exact List.mem_of_getElem? before
  exact ⟨fun receiver member live =>
      wired.live receiver (kept receiver member live) live,
    wired.made, wired.apart,
    fun receiver member live =>
      wired.behind receiver (kept receiver member live) live⟩

theorem board_dropReceiver (manager : SubscriptionManager) (index : Nat) :
    (manager.dropReceiver index).board = manager.board.set index none := by
  apply List.ext_getElem?
  intro place
  simp only [board, dropReceiver, sentTo, sentOn, List.getElem?_map,
    List.getElem?_modify, List.getElem?_set]
  by_cases same : index = place
  · subst same
    cases before : manager.receivers[index]? with
    | none =>
        simp [List.getElem?_eq_none_iff.mp before]
    | some old =>
        have inside := (List.getElem?_eq_some_iff.mp before).1
        simp [inside]
  · simp [same]

/-! ### Runs -/

theorem step_drop_eq_some {manager next : SubscriptionManager} {index : Nat} :
    manager.step (.drop index) = some next ↔
      manager.receivers[index]?.any Receiver.live = true ∧
        manager.dropReceiver index = next := by
  simp only [step]
  split <;> simp_all

theorem wired_step {manager next : SubscriptionManager}
    {event : SubscriptionEvent} (taken : manager.step event = some next)
    (wired : manager.Wired) : next.Wired := by
  cases event with
  | subscribe table key =>
      cases taken
      exact wired_subscribe wired table key
  | notify table key event =>
      cases taken
      exact wired_notify wired table key event
  | cleanup index =>
      obtain ⟨identifier, _, rfl⟩ := Option.map_eq_some_iff.mp taken
      apply wired_cleanup
      exact ⟨wired.live, wired.made, wired.apart, wired.behind⟩
  | drop index =>
      obtain ⟨_, rfl⟩ := step_drop_eq_some.mp taken
      exact wired_dropReceiver wired index

/-- Every step of the manager is the activity at the board. -/
theorem board_step {manager next : SubscriptionManager}
    {event : SubscriptionEvent} (taken : manager.step event = some next)
    (wired : manager.Wired) :
    next.board = manager.board.next (activity event) := by
  cases event with
  | subscribe table key =>
      cases taken
      exact board_subscribe manager table key
  | notify table key event =>
      cases taken
      exact board_notify wired table key event
  | cleanup index =>
      obtain ⟨identifier, _, rfl⟩ := Option.map_eq_some_iff.mp taken
      rw [board_cleanup]
      rfl
  | drop index =>
      obtain ⟨_, rfl⟩ := step_drop_eq_some.mp taken
      exact board_dropReceiver manager index

/-- The events of the listed calls of `notify` with the identifier. -/
def notified (identifier : String) : List SubscriptionEvent → List KeyEvent
  | [] => []
  | .notify table key event :: rest =>
      if channelIdentifier table key = identifier then
        event :: notified identifier rest
      else
        notified identifier rest
  | _ :: rest => notified identifier rest

theorem published_map_activity (identifier : String)
    (events : List SubscriptionEvent) :
    published identifier (events.map activity) =
      notified identifier events := by
  induction events with
  | nil =>
      rfl
  | cons event rest inductionHypothesis =>
      rw [List.map_cons, published_cons, inductionHypothesis]
      cases event with
      | notify table key event =>
          simp only [activity, Activity.deliveredTo, notified]
          split <;> rfl
      | subscribe table key =>
          rfl
      | cleanup index =>
          rfl
      | drop index =>
          rfl

theorem wired_of_reached {manager : SubscriptionManager}
    {events : List SubscriptionEvent}
    (reached : runSteps step new events = some manager) : manager.Wired :=
  runSteps_induction Wired (fun _ _ _ _ taken wired => wired_step taken wired)
    (stepsMeet_true step new events) reached wired_new

/-- A live receiver was sent what has been notified since it subscribed. -/
theorem sentTo_of_subscribed {after : List SubscriptionEvent}
    {manager subscribed final : SubscriptionManager} {table key : String}
    (wired : manager.Wired)
    (taken : step manager (.subscribe table key) = some subscribed)
    (continued : runSteps step subscribed after = some final)
    {receiver : Receiver}
    (found : final.receivers[manager.receivers.length]? = some receiver)
    (live : receiver.live = true) :
    receiver.identifier = channelIdentifier table key ∧
      final.sentTo receiver =
        notified (channelIdentifier table key) after := by
  have opened : subscribed.board[manager.receivers.length]? =
      some (some ⟨channelIdentifier table key, []⟩) := by
    rw [board_step taken wired, activity, Board.next,
      List.getElem?_append_right (by simp)]
    simp
  have finalBoard := runSteps_refines board activity Board.next Wired
    (fun _ _ _ taken wired => wired_step taken wired)
    (fun _ _ _ taken wired => board_step taken wired)
    continued (wired_step taken wired)
  have there := board_of_live found live
  rw [finalBoard] at there
  obtain ⟨topic, received⟩ := Board.received_since opened there
  simp only at topic received
  rw [published_map_activity] at received
  exact ⟨topic, received⟩

/-- A receiver that is still alive is connected, and was sent every event
that was notified for its identifier since it subscribed, in this order. -/
theorem live_receiver_connected {before after : List SubscriptionEvent}
    {manager subscribed final : SubscriptionManager} {table key : String}
    (reached : runSteps step new before = some manager)
    (taken : step manager (.subscribe table key) = some subscribed)
    (continued : runSteps step subscribed after = some final)
    {receiver : Receiver}
    (found : final.receivers[manager.receivers.length]? = some receiver)
    (live : receiver.live = true) :
    final.channels.lookup (channelIdentifier table key) =
        some receiver.sender ∧
      final.sentTo receiver =
        notified (channelIdentifier table key) after := by
  have wired : manager.Wired := wired_of_reached reached
  have wiredSubscribed : subscribed.Wired := wired_step taken wired
  have wiredFinal : final.Wired :=
    runSteps_induction Wired
      (fun _ _ _ _ taken wired => wired_step taken wired)
      (stepsMeet_true step subscribed after) continued wiredSubscribed
  obtain ⟨topic, received⟩ :=
    sentTo_of_subscribed wired taken continued found live
  constructor
  · rw [← topic]
    exact wiredFinal.live receiver (List.mem_of_getElem? found) live
  · exact received

/-- A notification finds that the only subscriber of the key has left. -/
def desertedKey : List SubscriptionEvent :=
  [.subscribe "notes" "n", .drop 0, .notify "notes" "n" .deleted]

/-- Its cleanup comes after somebody else has subscribed. -/
def lateCleanup : List SubscriptionEvent :=
  [.cleanup 0, .notify "notes" "m" .deleted, .notify "notes" "n" .deleted]

def deserted : SubscriptionManager :=
  runResult step new desertedKey (by decide)

def rejoined : SubscriptionManager :=
  (step deserted (.subscribe "notes" "n")).get (by decide)

def cleanedUp : SubscriptionManager :=
  runResult step rejoined lateCleanup (by decide)

theorem rejoined_connected :
    cleanedUp.channels.lookup (channelIdentifier "notes" "n") = some 0 ∧
      cleanedUp.sentTo ⟨"notes/n", 0, 0, true⟩ = [.deleted] := by
  have found : cleanedUp.receivers[deserted.receivers.length]? =
      some ⟨"notes/n", 0, 0, true⟩ := by decide
  exact live_receiver_connected
    (runSteps_eq_some_runResult step new desertedKey (by decide))
    (Option.some_get _).symm
    (runSteps_eq_some_runResult step rejoined lateCleanup (by decide))
    found rfl

end SubscriptionManager

end DynaRust.Storage
