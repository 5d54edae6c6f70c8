import DynaRust.Foundation.Broadcast
import DynaRust.Foundation.ServerSentEvents
import DynaRust.Storage.Subscription

/-!
# Event streams

`subscribe_to_key` turns a receiver into the body of a response: every event
is one frame, a receiver that lagged goes on with what its channel still
keeps, and the stream ends when the sender is gone.
-/

namespace DynaRust.Storage

open DynaRust.Foundation DynaRust.Network

/-- `broadcast::channel(16)`. -/
def channelCapacity : Nat := 16

/-- The response to a subscriber: its receiver's place in the channel, and the
chunks yielded so far. -/
structure EventStream where
  reader : Reader KeyEvent
  chunks : List Text
  ended : Bool

/-- The manager, and a stream for each of its receivers. -/
structure EventStreams where
  manager : SubscriptionManager
  streams : List EventStream

inductive StreamEvent where
  | act (event : SubscriptionEvent)
  /-- The response to a subscriber goes once through its loop. -/
  | poll (place : Nat)

/-- `serde_json::to_string(&event)`, or `null` if it fails. -/
def payloadOf (toJson : KeyEvent → Option Text) (event : KeyEvent) : Text :=
  (toJson event).getD ['n', 'u', 'l', 'l']

namespace EventStreams

def new : EventStreams where
  manager := SubscriptionManager.new
  streams := []

/-- A stream for the receiver that was just made. -/
def openStream (state : EventStreams) (manager : SubscriptionManager) :
    EventStreams :=
  { manager := manager
    streams := state.streams ++
      (manager.receivers.getLast?.map fun receiver =>
        { reader := Reader.opened (manager.sentOn receiver.sender)
          chunks := []
          ended := false }).toList }

/-- One round of the loop that waits in `rx.recv()`. -/
def pollStream (toJson : KeyEvent → Option Text) (state : EventStreams)
    (place : Nat) (receiver : Receiver) (stream : EventStream) :
    Option EventStreams :=
  let sent := state.manager.sentOn receiver.sender
  let read := stream.reader.read channelCapacity sent
  match stream.reader.finds channelCapacity sent with
  | .value event =>
      some { state with
        streams := state.streams.set place
          { stream with
            reader := read
            chunks := stream.chunks ++
              [eventFrame (payloadOf toJson event)] } }
  | .lagged =>
      some { state with
        streams := state.streams.set place { stream with reader := read } }
  | .empty =>
      -- `Closed` once no table holds the sender; `recv` waits otherwise
      if state.manager.channels.lookup receiver.identifier =
          some receiver.sender then
        none
      else
        some
          { manager := state.manager.dropReceiver place
            streams := state.streams.set place
              { stream with ended := true } }

def step (toJson : KeyEvent → Option Text) (state : EventStreams) :
    StreamEvent → Option EventStreams
  | .act event =>
      (state.manager.step event).map fun manager =>
        match event with
        | .subscribe _ _ => state.openStream manager
        | _ => { state with manager := manager }
  | .poll place =>
      match state.manager.receivers[place]?, state.streams[place]? with
      | some receiver, some stream =>
          if receiver.live then state.pollStream toJson place receiver stream
          else none
      | _, _ => none

/-! ## The channels behind the streams -/

/-- Channels only grow. -/
theorem sentOn_step {manager next : SubscriptionManager}
    {event : SubscriptionEvent} (wired : manager.Wired)
    (taken : manager.step event = some next) (sender : Nat) :
    ∃ more, next.sentOn sender = manager.sentOn sender ++ more := by
  cases event with
  | subscribe table key =>
      cases taken
      refine ⟨[], ?_⟩
      rw [List.append_nil]
      rcases manager.subscribe_cases table key with
        ⟨other, -, result⟩ | ⟨-, result⟩
      · rw [result]
        rfl
      · rw [result]
        exact SubscriptionManager.sentOn_openChannel manager
          (channelIdentifier table key) sender
  | notify table key event =>
      cases taken
      rcases manager.notify_cases table key event with
        ⟨-, result⟩ | ⟨other, stored, -, result⟩ | ⟨other, -, -, result⟩
      · exact ⟨[], by rw [result, List.append_nil]⟩
      · rw [result, SubscriptionManager.sentOn_carry (wired.made stored)]
        split
        · exact ⟨[event], rfl⟩
        · exact ⟨[], (List.append_nil _).symm⟩
      · refine ⟨[], ?_⟩
        rw [result, List.append_nil]
        rfl
  | cleanup index =>
      obtain ⟨identifier, -, rfl⟩ := Option.map_eq_some_iff.mp taken
      refine ⟨[], ?_⟩
      rw [List.append_nil]
      rcases SubscriptionManager.cleanup_cases _ identifier with
        result | ⟨-, -, -, result⟩
      · rw [result]
        rfl
      · rw [result]
        rfl
  | drop index =>
      obtain ⟨-, rfl⟩ := SubscriptionManager.step_drop_eq_some.mp taken
      exact ⟨[], (List.append_nil _).symm⟩

/-- A receiver is made at the end of its channel. -/
theorem receivers_subscribe (manager : SubscriptionManager)
    (table key : String) :
    ∃ receiver, (manager.subscribe table key).receivers =
        manager.receivers ++ [receiver] ∧
      receiver.position =
        ((manager.subscribe table key).sentOn receiver.sender).length := by
  rcases manager.subscribe_cases table key with
    ⟨sender, -, result⟩ | ⟨-, result⟩
  · rw [result]
    exact ⟨_, rfl, rfl⟩
  · rw [result]
    exact ⟨_, rfl, rfl⟩

/-- A live receiver was the same before, unless it was just made. -/
theorem receiver_of_step {manager next : SubscriptionManager}
    {event : SubscriptionEvent} (taken : manager.step event = some next)
    {place : Nat} {receiver : Receiver}
    (found : next.receivers[place]? = some receiver)
    (live : receiver.live = true)
    (old : place < manager.receivers.length) :
    manager.receivers[place]? = some receiver := by
  cases event with
  | subscribe table key =>
      cases taken
      obtain ⟨made, receivers, -⟩ := receivers_subscribe manager table key
      rw [receivers, List.getElem?_append_left old] at found
      exact found
  | notify table key event =>
      cases taken
      rcases manager.notify_cases table key event with
        ⟨-, result⟩ | ⟨other, -, -, result⟩ | ⟨other, -, -, result⟩
      · rwa [result] at found
      · rwa [result] at found
      · rwa [result] at found
  | cleanup index =>
      obtain ⟨identifier, -, rfl⟩ := Option.map_eq_some_iff.mp taken
      rcases SubscriptionManager.cleanup_cases _ identifier with
        result | ⟨-, -, -, result⟩
      · rwa [result] at found
      · rwa [result] at found
  | drop index =>
      obtain ⟨-, rfl⟩ := SubscriptionManager.step_drop_eq_some.mp taken
      simp only [SubscriptionManager.dropReceiver, List.getElem?_modify]
        at found
      obtain ⟨before, there, same⟩ := Option.map_eq_some_iff.mp found
      by_cases left : index = place
      · rw [if_pos left] at same
        rw [← same] at live
        cases live
      · rw [if_neg left] at same
        rw [there]
        exact congrArg some same

/-- Only a subscription makes a receiver. -/
theorem length_receivers_step {manager next : SubscriptionManager}
    {event : SubscriptionEvent} (taken : manager.step event = some next)
    (others : ∀ table key, event ≠ .subscribe table key) :
    next.receivers.length = manager.receivers.length := by
  cases event with
  | subscribe table key =>
      exact absurd rfl (others table key)
  | notify table key event =>
      cases taken
      rcases manager.notify_cases table key event with
        ⟨-, result⟩ | ⟨other, -, -, result⟩ | ⟨other, -, -, result⟩
      · rw [result]
      · rw [result]
        rfl
      · rw [result]
  | cleanup index =>
      obtain ⟨identifier, -, rfl⟩ := Option.map_eq_some_iff.mp taken
      rcases SubscriptionManager.cleanup_cases _ identifier with
        result | ⟨-, -, -, result⟩
      · rw [result]
      · rw [result]
  | drop index =>
      obtain ⟨-, rfl⟩ := SubscriptionManager.step_drop_eq_some.mp taken
      exact List.length_modify ..

/-! ## What a stream has yielded -/

/-- A live stream has yielded a frame for each event its receiver was given. -/
structure Streams (toJson : KeyEvent → Option Text)
    (manager : SubscriptionManager) (receiver : Receiver)
    (stream : EventStream) : Prop where
  running : stream.ended = false
  follows : stream.reader.Follows channelCapacity receiver.position
    (manager.sentOn receiver.sender)
  framed : stream.chunks = stream.reader.taken.map fun event =>
    eventFrame (payloadOf toJson event)

structure Sound (toJson : KeyEvent → Option Text) (state : EventStreams) :
    Prop where
  wired : state.manager.Wired
  aligned : state.streams.length = state.manager.receivers.length
  streams : ∀ {place : Nat} {receiver : Receiver} {stream : EventStream},
    state.manager.receivers[place]? = some receiver →
    receiver.live = true → state.streams[place]? = some stream →
    Streams toJson state.manager receiver stream

variable {toJson : KeyEvent → Option Text}

theorem sound_new : Sound toJson new where
  wired := SubscriptionManager.wired_new
  aligned := rfl
  streams := fun found => by cases found

/-- The state after a poll that finds something. -/
def polled (toJson : KeyEvent → Option Text) (state : EventStreams)
    (place : Nat) (receiver : Receiver) (stream : EventStream) :
    EventStreams :=
  let sent := state.manager.sentOn receiver.sender
  { state with
    streams := state.streams.set place
      { stream with
        reader := stream.reader.read channelCapacity sent
        chunks := stream.chunks ++
          match stream.reader.finds channelCapacity sent with
          | .value event => [eventFrame (payloadOf toJson event)]
          | _ => [] } }

theorem pollStream_eq {state : EventStreams} {receiver : Receiver}
    (held : state.manager.channels.lookup receiver.identifier =
      some receiver.sender) (place : Nat) (stream : EventStream) :
    state.pollStream toJson place receiver stream =
      if stream.reader.finds channelCapacity
          (state.manager.sentOn receiver.sender) = .empty then none
      else some (state.polled toJson place receiver stream) := by
  unfold pollStream polled
  dsimp only
  cases stream.reader.finds channelCapacity
      (state.manager.sentOn receiver.sender) with
  | value event =>
      exact (if_neg (by simp)).symm
  | lagged =>
      rw [List.append_nil]
      exact (if_neg (by simp)).symm
  | empty =>
      rw [if_pos rfl]
      exact if_pos held

/-- A poll of a sound state finds an event or a lag; it never ends the
stream. -/
theorem Sound.poll_iff {state next : EventStreams} {place : Nat}
    (sound : Sound toJson state) :
    step toJson state (.poll place) = some next ↔
      ∃ receiver stream, state.manager.receivers[place]? = some receiver ∧
        receiver.live = true ∧ state.streams[place]? = some stream ∧
        stream.reader.finds channelCapacity
          (state.manager.sentOn receiver.sender) ≠ .empty ∧
        next = state.polled toJson place receiver stream := by
  have held {receiver : Receiver}
      (found : state.manager.receivers[place]? = some receiver)
      (live : receiver.live = true) :
      state.manager.channels.lookup receiver.identifier =
        some receiver.sender :=
    sound.wired.live receiver (List.mem_of_getElem? found) live
  constructor
  · intro taken
    rw [step] at taken
    split at taken
    · rename_i receiver stream found there
      split at taken
      · rename_i live
        rw [pollStream_eq (held found live)] at taken
        split at taken
        · cases taken
        · rename_i ready
          exact ⟨receiver, stream, found, live, there, ready,
            (Option.some.inj taken).symm⟩
      · cases taken
    · cases taken
  · rintro ⟨receiver, stream, found, live, there, ready, rfl⟩
    rw [step, found, there]
    dsimp only
    rw [if_pos live, pollStream_eq (held found live), if_neg ready]

theorem Streams.step {manager next : SubscriptionManager}
    {receiver : Receiver} {stream : EventStream}
    (grows : ∃ more, next.sentOn receiver.sender =
      manager.sentOn receiver.sender ++ more)
    (streams : Streams toJson manager receiver stream) :
    Streams toJson next receiver stream := by
  obtain ⟨more, sent⟩ := grows
  refine ⟨streams.running, ?_, streams.framed⟩
  rw [sent]
  exact streams.follows.send more

theorem Streams.polled {manager : SubscriptionManager} {receiver : Receiver}
    {stream : EventStream} (streams : Streams toJson manager receiver stream) :
    Streams toJson manager receiver
      { stream with
        reader := stream.reader.read channelCapacity
          (manager.sentOn receiver.sender)
        chunks := stream.chunks ++
          match stream.reader.finds channelCapacity
              (manager.sentOn receiver.sender) with
          | .value event => [eventFrame (payloadOf toJson event)]
          | _ => [] } := by
  refine ⟨streams.running, streams.follows.read, ?_⟩
  rcases stream.reader.read_cases channelCapacity
      (manager.sentOn receiver.sender) with ⟨finds, -, read⟩ |
    ⟨event, finds, -, -, read⟩ | ⟨finds, -, read⟩
  · simp only [finds, read, List.append_nil]
    exact streams.framed
  · simp only [finds, read, List.map_append, List.map_singleton,
      streams.framed]
  · simp only [finds, read, List.append_nil]
    exact streams.framed

/-- What one step keeps. -/
theorem Sound.step {state next : EventStreams} {event : StreamEvent}
    (taken : EventStreams.step toJson state event = some next)
    (sound : Sound toJson state) : Sound toJson next := by
  cases event with
  | act event =>
      obtain ⟨manager, acted, same⟩ := Option.map_eq_some_iff.mp taken
      have wired := SubscriptionManager.wired_step acted sound.wired
      have old {place : Nat} {receiver : Receiver} {stream : EventStream}
          (found : manager.receivers[place]? = some receiver)
          (live : receiver.live = true)
          (there : state.streams[place]? = some stream) :
          Streams toJson manager receiver stream := by
        have before : place < state.manager.receivers.length := by
          rw [← sound.aligned]
          exact (List.getElem?_eq_some_iff.mp there).1
        have earlier := receiver_of_step acted found live before
        exact (sound.streams earlier live there).step
          (sentOn_step sound.wired acted receiver.sender)
      cases event with
      | subscribe table key =>
          subst same
          obtain ⟨made, receivers, position⟩ :=
            receivers_subscribe state.manager table key
          cases acted
          have last : (state.manager.subscribe table key).receivers.getLast? =
              some made := by
            rw [receivers, List.getLast?_concat]
          refine ⟨wired, ?_, ?_⟩
          · simp [openStream, receivers, sound.aligned]
          · intro place receiver stream found live there
            simp only [openStream, last, Option.map_some,
              Option.toList_some] at found there
            by_cases before : place < state.streams.length
            · rw [List.getElem?_append_left before] at there
              exact old found live there
            · have exactly : place = state.streams.length := by
                have inside := (List.getElem?_eq_some_iff.mp there).1
                rw [List.length_append, List.length_singleton] at inside
                omega
              subst exactly
              rw [List.getElem?_concat_length] at there
              rw [receivers, sound.aligned,
                List.getElem?_concat_length] at found
              cases found
              cases there
              refine ⟨rfl, ?_, rfl⟩
              rw [position]
              exact Reader.follows_opened _ _
      | notify table key event =>
          subst same
          refine ⟨wired, ?_, old⟩
          rw [length_receivers_step acted (by simp)]
          exact sound.aligned
      | cleanup index =>
          subst same
          refine ⟨wired, ?_, old⟩
          rw [length_receivers_step acted (by simp)]
          exact sound.aligned
      | drop index =>
          subst same
          refine ⟨wired, ?_, old⟩
          rw [length_receivers_step acted (by simp)]
          exact sound.aligned
  | poll place =>
      obtain ⟨receiver, stream, found, live, there, -, rfl⟩ :=
        sound.poll_iff.mp taken
      refine ⟨sound.wired, ?_, ?_⟩
      · rw [polled, List.length_set]
        exact sound.aligned
      · intro other tested final foundOther liveOther thereOther
        by_cases same : place = other
        · subst same
          have inside := (List.getElem?_eq_some_iff.mp there).1
          rw [polled, List.getElem?_set_self inside] at thereOther
          cases Option.some.inj (found.symm.trans foundOther)
          cases thereOther
          exact (sound.streams found live there).polled
        · rw [polled, List.getElem?_set_ne same] at thereOther
          exact sound.streams foundOther liveOther thereOther

theorem sound_of_reached {state final : EventStreams}
    {events : List StreamEvent} (sound : Sound toJson state)
    (reached : runSteps (EventStreams.step toJson) state events =
      some final) : Sound toJson final :=
  runSteps_induction (Sound toJson) (fun _ _ _ _ taken sound =>
    sound.step taken) (stepsMeet_true _ state events) reached sound

/-! ## What a client reads -/

/-- What happened to the manager meanwhile. -/
def managed : List StreamEvent → List SubscriptionEvent
  | [] => []
  | .act event :: rest => event :: managed rest
  | .poll _ :: rest => managed rest

/-- Polls leave the manager alone. -/
theorem manager_run {state final : EventStreams} {events : List StreamEvent}
    (sound : Sound toJson state)
    (reached : runSteps (EventStreams.step toJson) state events =
      some final) :
    runSteps SubscriptionManager.step state.manager (managed events) =
      some final.manager := by
  induction events generalizing state with
  | nil =>
      cases Option.some.inj reached
      rfl
  | cons event rest inductionHypothesis =>
      obtain ⟨next, taken, later⟩ := runSteps_cons_eq_some.mp reached
      have ran := inductionHypothesis (sound.step taken) later
      cases event with
      | act event =>
          obtain ⟨manager, acted, same⟩ := Option.map_eq_some_iff.mp taken
          have moved : next.manager = manager := by
            rw [← same]
            split
            · rfl
            · rfl
          rw [managed]
          exact runSteps_cons_eq_some.mpr ⟨manager, acted, moved ▸ ran⟩
      | poll place =>
          obtain ⟨receiver, stream, -, -, -, -, rfl⟩ := sound.poll_iff.mp taken
          exact ran

/-- What has arrived of a stream is read as the first events it was given. -/
theorem Streams.read_prefix {manager : SubscriptionManager}
    {receiver : Receiver} {stream : EventStream}
    (streams : Streams toJson manager receiver stream)
    (oneLine : ∀ event, OnOneLine (payloadOf toJson event)) {received : Text}
    (arrived : received <+: stream.chunks.flatten) :
    eventsRead received <+: stream.reader.taken.map (payloadOf toJson) := by
  apply eventsRead_prefix
  · intro payload among
    obtain ⟨event, -, rfl⟩ := List.mem_map.mp among
    exact oneLine event
  · rw [streams.framed] at arrived
    rw [List.flatMap_map]
    exact arrived

/-- What a subscriber reads of its response, wherever that breaks off, is the
payloads of events notified for its key since it subscribed, none twice and in
their order; once its stream waits it was given the last of them. -/
theorem client_reads
    (oneLine : ∀ event, OnOneLine (payloadOf toJson event))
    {before after : List StreamEvent}
    {state subscribed final : EventStreams} {table key : String}
    (reached : runSteps (EventStreams.step toJson) new before = some state)
    (taken : EventStreams.step toJson state (.act (.subscribe table key)) =
      some subscribed)
    (continued : runSteps (EventStreams.step toJson) subscribed after =
      some final)
    {receiver : Receiver} {stream : EventStream}
    (found : final.manager.receivers[state.manager.receivers.length]? =
      some receiver)
    (live : receiver.live = true)
    (there : final.streams[state.manager.receivers.length]? = some stream)
    {received : Text} (arrived : received <+: stream.chunks.flatten) :
    ∃ given, List.Sublist given
        (SubscriptionManager.notified (channelIdentifier table key)
          (managed after)) ∧
      eventsRead received <+: given.map (payloadOf toJson) ∧
      eventsRead stream.chunks.flatten = given.map (payloadOf toJson) ∧
      (step toJson final (.poll state.manager.receivers.length) = none →
        given.getLast? =
          (SubscriptionManager.notified (channelIdentifier table key)
            (managed after)).getLast?) := by
  have sound := sound_of_reached sound_new reached
  have soundSubscribed := sound.step taken
  have soundFinal := sound_of_reached soundSubscribed continued
  have streams := soundFinal.streams found live there
  have opened : (state.manager.step (.subscribe table key)).map
      state.openStream = some subscribed := taken
  obtain ⟨manager, acted, rfl⟩ := Option.map_eq_some_iff.mp opened
  have sent := (SubscriptionManager.sentTo_of_subscribed sound.wired acted
    (manager_run soundSubscribed continued) found live).2
  refine ⟨stream.reader.taken, ?_, streams.read_prefix oneLine arrived, ?_, ?_⟩
  · rw [← sent]
    exact streams.follows.sublist
  · rw [streams.framed, ← List.flatMap_def]
    rw [← List.flatMap_map]
    apply eventsRead_frames
    intro payload among
    obtain ⟨event, -, rfl⟩ := List.mem_map.mp among
    exact oneLine event
  · intro waits
    rw [← sent]
    apply streams.follows.getLast?_of_finds_empty (by decide)
    by_contra ready
    have polled := soundFinal.poll_iff.mpr
      ⟨receiver, stream, found, live, there, ready, rfl⟩
    rw [waits] at polled
    cases polled

def noteUpdated : VersionedValue :=
  VersionedValue.new ∅ "alice" "A" 1

/-- `serde_json` on a deletion and on one update. -/
def noteToJson : KeyEvent → Option Text
  | .deleted => some "\"Deleted\"".toList
  | .updated record =>
      if record = noteUpdated then
        some ("\x7b\"Updated\":\x7b\"value\":\x7b\x7d,".toList ++
          "\"vector_clock\":\x7b\"A\":1\x7d,".toList ++
          "\"timestamp\":1,\"owner\":\"alice\"\x7d\x7d".toList)
      else none

def noteStreamed : EventStreams :=
  (step noteToJson new (.act (.subscribe "notes" "n"))).get (by decide)

/-- More events than a channel keeps. -/
def noteBurst : List StreamEvent :=
  List.replicate 18 (.act (.notify "notes" "n" .deleted))

/-- Two events are handed over, the stream lags and goes on. -/
def noteEvents : List StreamEvent :=
  [.act (.notify "notes" "n" (.updated noteUpdated)), .poll 0,
    .act (.notify "notes" "n" .deleted), .poll 0] ++
      noteBurst ++ [.poll 0, .poll 0]

def noteRead : EventStreams :=
  runResult (step noteToJson) noteStreamed noteEvents (by decide)

def noteStream : EventStream where
  reader := {
    position := 5
    taken := [.updated noteUpdated, .deleted, .deleted] }
  chunks := [eventFrame (payloadOf noteToJson (.updated noteUpdated)),
    eventFrame (payloadOf noteToJson .deleted),
    eventFrame (payloadOf noteToJson .deleted)]
  ended := false

/-- The connection breaks off in the second frame. -/
def noteReceived : Text :=
  eventFrame (payloadOf noteToJson (.updated noteUpdated)) ++
    "data: \"Del".toList

private theorem oneLine_noteToJson (event : KeyEvent) :
    OnOneLine (payloadOf noteToJson event) := by
  have null : OnOneLine ['n', 'u', 'l', 'l'] := by decide
  cases event with
  | updated record =>
      by_cases same : record = noteUpdated
      · subst same
        decide
      · rw [payloadOf, noteToJson, if_neg same]
        exact null
  | deleted =>
      decide

/-- The subscriber of a note reads of its update. -/
theorem noteRead_client_reads :
    ∃ given, List.Sublist given
        (SubscriptionManager.notified (channelIdentifier "notes" "n")
          (managed noteEvents)) ∧
      eventsRead noteReceived <+: given.map (payloadOf noteToJson) ∧
      eventsRead noteStream.chunks.flatten =
        given.map (payloadOf noteToJson) ∧
      (step noteToJson noteRead (.poll 0) = none →
        given.getLast? =
          (SubscriptionManager.notified (channelIdentifier "notes" "n")
            (managed noteEvents)).getLast?) := by
  have found : noteRead.manager.receivers[new.manager.receivers.length]? =
      some ⟨"notes/n", 0, 0, true⟩ := by decide
  have there : noteRead.streams[new.manager.receivers.length]? =
      some noteStream := rfl
  have arrived : noteReceived <+: noteStream.chunks.flatten := by decide
  exact client_reads oneLine_noteToJson
    (runSteps_nil new)
    (Option.some_get _).symm
    (runSteps_eq_some_runResult (step noteToJson) noteStreamed noteEvents
      (by decide))
    found rfl there arrived

/-- The polls that are left until the stream waits. -/
theorem Sound.exists_caughtUp {state : EventStreams}
    (sound : Sound toJson state) {place left : Nat} {receiver : Receiver}
    {stream : EventStream}
    (found : state.manager.receivers[place]? = some receiver)
    (live : receiver.live = true)
    (there : state.streams[place]? = some stream)
    (count : stream.reader.readsLeft channelCapacity
      (state.manager.sentOn receiver.sender) = left) :
    ∃ caughtUp,
      runSteps (EventStreams.step toJson) state
        (List.replicate left (.poll place)) = some caughtUp ∧
      EventStreams.step toJson caughtUp (.poll place) = none := by
  induction left generalizing state stream with
  | zero =>
      refine ⟨state, rfl, ?_⟩
      cases taken : EventStreams.step toJson state (.poll place) with
      | none =>
          rfl
      | some next =>
          obtain ⟨other, polled, foundOther, -, therePolled, ready, -⟩ :=
            sound.poll_iff.mp taken
          cases Option.some.inj (found.symm.trans foundOther)
          cases Option.some.inj (there.symm.trans therePolled)
          exact absurd (Reader.finds_eq_empty_iff.mpr count) ready
  | succ left inductionHypothesis =>
      have some_left : stream.reader.readsLeft channelCapacity
          (state.manager.sentOn receiver.sender) ≠ 0 := by
        rw [count]
        exact Nat.succ_ne_zero left
      have ready : stream.reader.finds channelCapacity
          (state.manager.sentOn receiver.sender) ≠ .empty :=
        fun finished => some_left (Reader.finds_eq_empty_iff.mp finished)
      have taken := sound.poll_iff.mpr
        ⟨receiver, stream, found, live, there, ready, rfl⟩
      have fewer := Reader.readsLeft_read some_left
      rw [count] at fewer
      have inside := (List.getElem?_eq_some_iff.mp there).1
      obtain ⟨caughtUp, ran, waits⟩ :=
        inductionHypothesis (sound.step taken) found
          (List.getElem?_set_self inside) (Nat.succ.inj fewer)
      exact ⟨caughtUp, runSteps_cons_eq_some.mpr ⟨_, taken, ran⟩, waits⟩

/-- A subscriber that reads on waits for the next event after at most one
lag and the events that its channel keeps. -/
theorem catches_up {state : EventStreams} {events : List StreamEvent}
    (reached : runSteps (EventStreams.step toJson) new events = some state)
    {place : Nat} {receiver : Receiver} {stream : EventStream}
    (found : state.manager.receivers[place]? = some receiver)
    (live : receiver.live = true)
    (there : state.streams[place]? = some stream) :
    ∃ polls caughtUp, polls ≤ channelCapacity + 1 ∧
      runSteps (EventStreams.step toJson) state
        (List.replicate polls (.poll place)) = some caughtUp ∧
      EventStreams.step toJson caughtUp (.poll place) = none := by
  obtain ⟨caughtUp, ran, waits⟩ :=
    (sound_of_reached sound_new reached).exists_caughtUp found live there rfl
  exact ⟨_, caughtUp, Reader.readsLeft_le _ _ _, ran, waits⟩

/-- One event was handed over, and more have been sent since than the channel
keeps. -/
def noteMissed : List StreamEvent :=
  [.act (.notify "notes" "n" (.updated noteUpdated)), .poll 0] ++ noteBurst

def noteBehind : EventStreams :=
  runResult (step noteToJson) noteStreamed noteMissed (by decide)

theorem noteBehind_catches_up :
    ∃ polls caughtUp, polls ≤ channelCapacity + 1 ∧
      runSteps (step noteToJson) noteBehind
        (List.replicate polls (.poll 0)) = some caughtUp ∧
      step noteToJson caughtUp (.poll 0) = none := by
  have reached : runSteps (step noteToJson) new
      (.act (.subscribe "notes" "n") :: noteMissed) = some noteBehind :=
    runSteps_cons_eq_some.mpr ⟨noteStreamed, (Option.some_get _).symm,
      runSteps_eq_some_runResult (step noteToJson) noteStreamed noteMissed
        (by decide)⟩
  have found : noteBehind.manager.receivers[0]? =
      some ⟨"notes/n", 0, 0, true⟩ := by decide
  have there : noteBehind.streams[0]? = some {
      reader := { position := 1, taken := [.updated noteUpdated] }
      chunks := [eventFrame (payloadOf noteToJson (.updated noteUpdated))]
      ended := false } := rfl
  exact catches_up reached found rfl there

end EventStreams

end DynaRust.Storage
