import DynaRust.Foundation.CausalHistory
import DynaRust.Foundation.Runs
import DynaRust.Storage.Engine
import Mathlib.Logic.Function.Basic

/-!
# The replicas of one key

Nodes accept PUTs and PATCHes of one key; every accepted write sends its full
version to the other nodes, a PUT also to its own, and the messages are
delivered in any order, with any delay and any number of times.  The list of
accepted writes and the writes each node knows are recorded along the way;
they do not influence the stored versions.
-/

namespace DynaRust.Replication

open DynaRust.Foundation DynaRust.Storage VectorClock

/-- An accepted write: where it was made, what was stored and sent, whether it
is also sent to its own node, and the writes its node had made or received. -/
structure AcceptedWrite where
  node : String
  version : VersionedValue
  toSelf : Bool
  known : List Nat
  deriving DecidableEq

/-- A write as an entry of the causal history. -/
def AcceptedWrite.stamp (write : AcceptedWrite) : Stamp String where
  maker := write.node
  clock := reading write.version.vectorClock
  known := write.known

structure KeyCluster where
  stored : String → Option VersionedValue
  received : String → List Nat
  writes : List AcceptedWrite

inductive KeyEvent where
  | put (node user : String) (body : HashMap String Value) (now : Nat)
  | patch (node user : String) (body : HashMap String Value) (now : Nat)
  | deliver (node : String) (write : Nat)

namespace KeyCluster

def initial : KeyCluster where
  stored := fun _ => none
  received := fun _ => []
  writes := []

/-- Store an accepted version and send it. -/
def accept (state : KeyCluster) (node : String) (version : VersionedValue)
    (toSelf : Bool) : KeyCluster where
  stored := Function.update state.stored node (some version)
  received := Function.update state.received node
    (state.writes.length :: state.received node)
  writes := state.writes ++ [⟨node, version, toSelf, state.received node⟩]

/-- Handle an internal PUT that carries `version`. -/
def receive (state : KeyCluster) (node : String) (write : Nat)
    (version : VersionedValue) : KeyCluster where
  stored := Function.update state.stored node
    (some (mergeIncoming (state.stored node) version))
  received := Function.update state.received node
    (write :: state.received node)
  writes := state.writes

/-- One request or delivery; a refused request changes nothing. -/
def step (state : KeyCluster) : KeyEvent → Option KeyCluster
  | .put node user body now =>
      match putLocal (state.stored node) user body node now with
      | .ok version => some (state.accept node version true)
      | .error _ => some state
  | .patch node user body now =>
      match patchLocal (state.stored node) user body node now with
      | .ok version => some (state.accept node version false)
      | .error _ => some state
  | .deliver node write =>
      match state.writes[write]? with
      | some sent =>
          if sent.node = node ∧ sent.toSelf = false then none
          else some (state.receive node write sent.version)
      | none => none

/-- How an accepted version arises from the record stored at its node. -/
inductive Written (stored : Option VersionedValue) (node user : String)
    (body : HashMap String Value) (now : Nat) : VersionedValue → Prop
  | created : stored = none →
      Written stored node user body now
        (VersionedValue.new body user node now)
  | updated (base : VersionedValue) : stored = some base →
      base.owner = user →
      Written stored node user body now (base.update body node now)
  | patched (base : VersionedValue) : stored = some base →
      base.owner = user →
      Written stored node user body now (base.patch body node now)

theorem Written.timestamp {stored : Option VersionedValue}
    {node user : String} {body : HashMap String Value} {now : Nat}
    {version : VersionedValue}
    (written : Written stored node user body now version) :
    version.timestamp = now := by
  cases written <;> rfl

/-- What a write request asks for. -/
inductive Requests :
    KeyEvent → String → String → HashMap String Value → Nat → Prop
  | put (node user : String) (body : HashMap String Value) (now : Nat) :
      Requests (.put node user body now) node user body now
  | patch (node user : String) (body : HashMap String Value) (now : Nat) :
      Requests (.patch node user body now) node user body now

/-- Everything one step can do. -/
theorem step_cases {state next : KeyCluster} {event : KeyEvent}
    (taken : state.step event = some next) :
    next = state ∨
      (∃ node user body now version toSelf,
        Requests event node user body now ∧
        Written (state.stored node) node user body now version ∧
        next = state.accept node version toSelf) ∨
      ∃ node write sent, event = .deliver node write ∧
        state.writes[write]? = some sent ∧
        next = state.receive node write sent.version := by
  cases event with
  | put node user body now =>
      simp only [step] at taken
      split at taken
      · rename_i version accepted
        refine Or.inr (Or.inl ⟨node, user, body, now, version, true,
          .put node user body now, ?_, (Option.some.inj taken).symm⟩)
        rcases putLocal_eq_ok_iff.mp accepted with
          ⟨missing, rfl⟩ | ⟨base, found, own, rfl⟩
        · exact .created missing
        · exact .updated base found own
      · exact Or.inl (Option.some.inj taken).symm
  | patch node user body now =>
      simp only [step] at taken
      split at taken
      · rename_i version accepted
        refine Or.inr (Or.inl ⟨node, user, body, now, version, false,
          .patch node user body now, ?_, (Option.some.inj taken).symm⟩)
        obtain ⟨base, found, own, rfl⟩ := patchLocal_eq_ok_iff.mp accepted
        exact .patched base found own
      · exact Or.inl (Option.some.inj taken).symm
  | deliver node write =>
      simp only [step] at taken
      split at taken
      · rename_i sent found
        split at taken
        · cases taken
        · exact Or.inr (Or.inr ⟨node, write, sent, rfl, found,
            (Option.some.inj taken).symm⟩)
      · cases taken

/-! ## Reading the updated state -/

@[simp]
theorem accept_writes (state : KeyCluster) (node : String)
    (version : VersionedValue) (toSelf : Bool) :
    (state.accept node version toSelf).writes =
      state.writes ++ [⟨node, version, toSelf, state.received node⟩] :=
  rfl

@[simp]
theorem receive_writes (state : KeyCluster) (node : String) (write : Nat)
    (version : VersionedValue) :
    (state.receive node write version).writes = state.writes :=
  rfl

theorem accept_stored (state : KeyCluster) (node tested : String)
    (version : VersionedValue) (toSelf : Bool) :
    (state.accept node version toSelf).stored tested =
      if tested = node then some version else state.stored tested := by
  simp [accept, Function.update_apply]

theorem accept_received (state : KeyCluster) (node tested : String)
    (version : VersionedValue) (toSelf : Bool) :
    (state.accept node version toSelf).received tested =
      if tested = node then state.writes.length :: state.received node
      else state.received tested := by
  simp [accept, Function.update_apply]

theorem receive_stored (state : KeyCluster) (node tested : String)
    (write : Nat) (version : VersionedValue) :
    (state.receive node write version).stored tested =
      if tested = node then
        some (mergeIncoming (state.stored node) version)
      else state.stored tested := by
  simp [receive, Function.update_apply]

theorem receive_received (state : KeyCluster) (node tested : String)
    (write : Nat) (version : VersionedValue) :
    (state.receive node write version).received tested =
      if tested = node then write :: state.received node
      else state.received tested := by
  simp [receive, Function.update_apply]

/-! ## What every run keeps -/

/-- Bookkeeping of a reachable state: a node knows its own writes and stores
one of the versions it knows. -/
structure Traced (state : KeyCluster) : Prop where
  receivedPast : ∀ node, ∀ write ∈ state.received node,
    write < state.writes.length
  ownReceived : ∀ write sent, state.writes[write]? = some sent →
    write ∈ state.received sent.node
  storedKnown : ∀ node version, state.stored node = some version →
    ∃ write ∈ state.received node, ∃ sent,
      state.writes[write]? = some sent ∧ sent.version = version
  knownStored : ∀ node write, write ∈ state.received node →
    (state.stored node).isSome

theorem traced_initial : Traced initial where
  receivedPast := by
    intro node write member
    cases member
  ownReceived := by
    intro write sent found
    simp [initial] at found
  storedKnown := by
    intro node version found
    cases found
  knownStored := by
    intro node write member
    cases member

/-- A position of the extended list of writes is an old one or the new
write. -/
theorem getElem?_accept {state : KeyCluster} {node : String}
    {version : VersionedValue} {toSelf : Bool} {write : Nat}
    {sent : AcceptedWrite}
    (found : (state.accept node version toSelf).writes[write]? = some sent) :
    state.writes[write]? = some sent ∨
      (write = state.writes.length ∧
        sent = ⟨node, version, toSelf, state.received node⟩) := by
  rw [accept_writes] at found
  rcases Nat.lt_or_ge write state.writes.length with old | late
  · rw [List.getElem?_append_left old] at found
    exact Or.inl found
  · obtain ⟨bound, _⟩ := List.getElem?_eq_some_iff.mp found
    have last : write = state.writes.length := by
      simp only [List.length_append, List.length_singleton] at bound
      omega
    subst last
    rw [List.getElem?_concat_length] at found
    exact Or.inr ⟨rfl, (Option.some.inj found).symm⟩

theorem getElem?_accept_of_some {state : KeyCluster} {write : Nat}
    {sent : AcceptedWrite} (found : state.writes[write]? = some sent)
    (node : String) (version : VersionedValue) (toSelf : Bool) :
    (state.accept node version toSelf).writes[write]? = some sent := by
  obtain ⟨bound, _⟩ := List.getElem?_eq_some_iff.mp found
  rw [accept_writes, List.getElem?_append_left bound]
  exact found

theorem getElem?_accept_last (state : KeyCluster) (node : String)
    (version : VersionedValue) (toSelf : Bool) :
    (state.accept node version toSelf).writes[state.writes.length]? =
      some ⟨node, version, toSelf, state.received node⟩ := by
  rw [accept_writes, List.getElem?_concat_length]

theorem Traced.accept {state : KeyCluster} (traced : Traced state)
    (node : String) (version : VersionedValue) (toSelf : Bool) :
    Traced (state.accept node version toSelf) where
  receivedPast := by
    intro tested write member
    rw [accept_received] at member
    rw [accept_writes, List.length_append, List.length_singleton]
    split at member
    · rcases List.mem_cons.mp member with rfl | old
      · omega
      · have := traced.receivedPast node write old
        omega
    · have := traced.receivedPast tested write member
      omega
  ownReceived := by
    intro write sent found
    rw [accept_received]
    rcases getElem?_accept found with old | ⟨rfl, rfl⟩
    · have own := traced.ownReceived write sent old
      split
      · rename_i same
        rw [same] at own
        exact List.mem_cons_of_mem _ own
      · exact own
    · simp
  storedKnown := by
    intro tested kept found
    rw [accept_stored] at found
    rw [accept_received]
    split at found
    · rename_i same
      rw [if_pos same]
      refine ⟨state.writes.length, by simp, _,
        getElem?_accept_last state node version toSelf, ?_⟩
      exact Option.some.inj found
    · rename_i different
      rw [if_neg different]
      obtain ⟨write, member, sent, old, same⟩ :=
        traced.storedKnown tested kept found
      exact ⟨write, member, sent, getElem?_accept_of_some old _ _ _, same⟩
  knownStored := by
    intro tested write member
    rw [accept_received] at member
    rw [accept_stored]
    split
    · rfl
    · rename_i different
      rw [if_neg different] at member
      exact traced.knownStored tested write member

theorem Traced.receive {state : KeyCluster} (traced : Traced state)
    (node : String) {write : Nat} {sent : AcceptedWrite}
    (sentFound : state.writes[write]? = some sent) :
    Traced (state.receive node write sent.version) where
  receivedPast := by
    intro tested known member
    rw [receive_received] at member
    split at member
    · rcases List.mem_cons.mp member with rfl | old
      · exact (List.getElem?_eq_some_iff.mp sentFound).1
      · exact traced.receivedPast node known old
    · exact traced.receivedPast tested known member
  ownReceived := by
    intro known own found
    have member := traced.ownReceived known own found
    rw [receive_received]
    split
    · rename_i same
      rw [same] at member
      exact List.mem_cons_of_mem _ member
    · exact member
  storedKnown := by
    intro tested kept found
    rw [receive_stored] at found
    rw [receive_received]
    split at found
    · rename_i same
      rw [if_pos same]
      rcases mergeIncoming_eq_or (state.stored node) sent.version with
        isNew | isOld
      · rw [isNew] at found
        exact ⟨write, by simp, sent, sentFound, Option.some.inj found⟩
      · rw [found] at isOld
        obtain ⟨known, member, old⟩ := traced.storedKnown node kept isOld
        exact ⟨known, List.mem_cons_of_mem _ member, old⟩
    · rename_i different
      rw [if_neg different]
      exact traced.storedKnown tested kept found
  knownStored := by
    intro tested known member
    rw [receive_received] at member
    rw [receive_stored]
    split
    · rfl
    · rename_i different
      rw [if_neg different] at member
      exact traced.knownStored tested known member

theorem Traced.step {state next : KeyCluster} {event : KeyEvent}
    (traced : Traced state) (taken : state.step event = some next) :
    Traced next := by
  rcases step_cases taken with rfl |
    ⟨node, _, _, _, version, toSelf, _, _, rfl⟩ | ⟨node, write, sent, _, found, rfl⟩
  · exact traced
  · exact traced.accept node version toSelf
  · exact traced.receive node found

end KeyCluster

end DynaRust.Replication
