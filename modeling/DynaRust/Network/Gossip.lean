import DynaRust.Foundation.Contest
import DynaRust.Network.Membership
import Mathlib.Data.Finset.Max

/-!
# Merging gossiped memberships

Of two entries for one node the one with the larger heartbeat is kept, and on
a tie the one that came first.  New nodes are let in as long as there is room.
The order of the messages matters exactly when two of the newest entries of a
node tie, or when there is room for some of the new nodes but not for all.
-/

namespace DynaRust.Network

open DynaRust.Foundation

/-- Entries contend for a node by their heartbeats. -/
def heartbeatContest : Contest NodeInfo where
  beats incoming existing :=
    decide (incoming.lastHeartbeat > existing.lastHeartbeat)
  asymm := by
    intro first second larger
    have order := of_decide_eq_true larger
    exact decide_eq_false (by omega)

theorem heartbeatContest_beats_iff (incoming existing : NodeInfo) :
    heartbeatContest.beats incoming existing = true ↔
      existing.lastHeartbeat < incoming.lastHeartbeat :=
  decide_eq_true_iff

theorem heartbeatContest_beats_eq_false_iff (incoming existing : NodeInfo) :
    heartbeatContest.beats incoming existing = false ↔
      incoming.lastHeartbeat ≤ existing.lastHeartbeat := by
  rw [← Bool.not_eq_true, heartbeatContest_beats_iff, Nat.not_lt]

/-! ## One entry -/

theorem receiveEntry_of_refused (nodes : Membership) {node : String}
    (info : NodeInfo) (refused : isRefusedName node = true) :
    receiveEntry nodes node info = nodes := by
  rw [receiveEntry, if_pos refused]

/-- An entry replaces what its node has, or enters if there is room. -/
theorem receiveEntry_of_accepted (nodes : Membership) {node : String}
    (info : NodeInfo) (accepted : isRefusedName node = false)
    (room : node ∈ nodes ∨ nodes.keys.card < maxClusterSize) :
    receiveEntry nodes node info = nodes.insert node
      (heartbeatContest.offer (nodes.lookup node) info) := by
  rw [receiveEntry, if_neg (by simp [accepted])]
  cases found : nodes.lookup node with
  | none =>
      have absent : node ∉ nodes := Finmap.lookup_eq_none.mp found
      have free : ¬ nodes.keys.card ≥ maxClusterSize :=
        Nat.not_le.mpr (room.resolve_left absent)
      simp only [if_neg free, Contest.offer_none]
  | some existing =>
      by_cases newer : info.lastHeartbeat > existing.lastHeartbeat
      · have wins := (heartbeatContest_beats_iff info existing).mpr newer
        simp only [if_pos newer, heartbeatContest.offer_of_beats wins]
      · have loses := (heartbeatContest_beats_eq_false_iff info existing).mpr
          (Nat.not_lt.mp newer)
        simp only [if_neg newer, heartbeatContest.offer_of_not_beats loses]
        apply Finmap.ext_lookup
        intro tested
        rw [HashMap.lookup_insert_eq_ite]
        split
        · rename_i same
          rw [same, found]
        · rfl

theorem receiveEntry_of_full (nodes : Membership) {node : String}
    (info : NodeInfo) (absent : node ∉ nodes)
    (full : maxClusterSize ≤ nodes.keys.card) :
    receiveEntry nodes node info = nodes := by
  rw [receiveEntry, Finmap.lookup_eq_none.mpr absent]
  simp [full]

/-- Everything that one entry can do. -/
theorem receiveEntry_cases (nodes : Membership) (node : String)
    (info : NodeInfo) :
    receiveEntry nodes node info = nodes ∨
      isRefusedName node = false ∧
        (node ∈ nodes ∨ nodes.keys.card < maxClusterSize) ∧
        receiveEntry nodes node info = nodes.insert node
          (heartbeatContest.offer (nodes.lookup node) info) := by
  cases refused : isRefusedName node with
  | true =>
      exact Or.inl (receiveEntry_of_refused nodes info refused)
  | false =>
      by_cases room : node ∈ nodes ∨ nodes.keys.card < maxClusterSize
      · exact Or.inr ⟨rfl, room,
          receiveEntry_of_accepted nodes info refused room⟩
      · rw [not_or, Nat.not_lt] at room
        exact Or.inl (receiveEntry_of_full nodes info room.1 room.2)

theorem keys_insert (nodes : Membership) (node : String) (info : NodeInfo) :
    (nodes.insert node info).keys = insert node nodes.keys := by
  ext tested
  rw [Finmap.mem_keys, Finmap.mem_insert, Finset.mem_insert,
    Finmap.mem_keys]

/-- No entry is ever removed. -/
theorem keys_subset_receiveEntry (nodes : Membership) (node : String)
    (info : NodeInfo) : nodes.keys ⊆ (receiveEntry nodes node info).keys := by
  rcases receiveEntry_cases nodes node info with same | ⟨-, -, inserted⟩
  · rw [same]
  · rw [inserted, keys_insert]
    exact Finset.subset_insert node nodes.keys

theorem card_receiveEntry_le {nodes : Membership}
    (bounded : nodes.keys.card ≤ maxClusterSize) (node : String)
    (info : NodeInfo) :
    (receiveEntry nodes node info).keys.card ≤ maxClusterSize := by
  rcases receiveEntry_cases nodes node info with same | ⟨-, room, inserted⟩
  · rw [same]
    exact bounded
  · rw [inserted, keys_insert]
    rcases room with present | free
    · rw [Finset.insert_eq_of_mem (Finmap.mem_keys.mpr present)]
      exact bounded
    · have grown := Finset.card_insert_le node nodes.keys
      omega

/-! ## A list of entries -/

theorem keys_subset_receiveEntries
    (entries : List (Sigma fun _ : String => NodeInfo)) (nodes : Membership) :
    nodes.keys ⊆ (receiveEntries entries nodes).keys := by
  induction entries generalizing nodes with
  | nil =>
      exact Finset.Subset.refl nodes.keys
  | cons entry rest inductionHypothesis =>
      exact Finset.Subset.trans
        (keys_subset_receiveEntry nodes entry.1 entry.2)
        (inductionHypothesis _)

theorem card_receiveEntries_le {nodes : Membership}
    (bounded : nodes.keys.card ≤ maxClusterSize)
    (entries : List (Sigma fun _ : String => NodeInfo)) :
    (receiveEntries entries nodes).keys.card ≤ maxClusterSize := by
  induction entries generalizing nodes with
  | nil =>
      exact bounded
  | cons entry rest inductionHypothesis =>
      exact inductionHypothesis (card_receiveEntry_le bounded entry.1 entry.2)

theorem receiveEntries_append
    (first second : List (Sigma fun _ : String => NodeInfo))
    (nodes : Membership) :
    receiveEntries (first ++ second) nodes =
      receiveEntries second (receiveEntries first nodes) := by
  induction first generalizing nodes with
  | nil =>
      rfl
  | cons entry rest inductionHypothesis =>
      exact inductionHypothesis (receiveEntry nodes entry.1 entry.2)

/-- What the listed entries say about one node, in their order. -/
def offersFor (node : String)
    (entries : List (Sigma fun _ : String => NodeInfo)) : List NodeInfo :=
  entries.filterMap fun entry => if entry.1 = node then some entry.2 else none

theorem mem_offersFor {node : String} {info : NodeInfo}
    {entries : List (Sigma fun _ : String => NodeInfo)} :
    info ∈ offersFor node entries ↔ Sigma.mk node info ∈ entries := by
  rw [offersFor, List.mem_filterMap]
  constructor
  · rintro ⟨⟨name, listed⟩, member, chosen⟩
    obtain ⟨rfl, same⟩ := Option.ite_none_right_eq_some.mp chosen
    cases same
    exact member
  · intro member
    exact ⟨⟨node, info⟩, member, if_pos rfl⟩

theorem offersFor_cons_self (node : String) (info : NodeInfo)
    (rest : List (Sigma fun _ : String => NodeInfo)) :
    offersFor node (⟨node, info⟩ :: rest) = info :: offersFor node rest := by
  simp [offersFor]

theorem offersFor_cons_of_ne {node name : String} (different : name ≠ node)
    (info : NodeInfo) (rest : List (Sigma fun _ : String => NodeInfo)) :
    offersFor node (⟨name, info⟩ :: rest) = offersFor node rest := by
  simp [offersFor, different]

/-- A node is let in: it is there, or there is room for every new name. -/
def LetIn (nodes : Membership) (names : Finset String) (node : String) :
    Prop :=
  node ∈ nodes ∨ (nodes.keys ∪ names).card ≤ maxClusterSize

private theorem letIn_receiveEntry {nodes : Membership}
    {names : Finset String} {node name : String} {info : NodeInfo}
    (letIn : LetIn nodes names node)
    (named : isRefusedName name = false → name ∈ names) :
    LetIn (receiveEntry nodes name info) names node := by
  rcases letIn with present | room
  · have kept := keys_subset_receiveEntry nodes name info
      (Finmap.mem_keys.mpr present)
    exact Or.inl (Finmap.mem_keys.mp kept)
  · refine Or.inr ?_
    rcases receiveEntry_cases nodes name info with
      same | ⟨accepted, -, inserted⟩
    · rw [same]
      exact room
    · have among : name ∈ nodes.keys ∪ names :=
        Finset.mem_union_right _ (named accepted)
      rw [inserted, keys_insert, Finset.insert_union,
        Finset.insert_eq_of_mem among]
      exact room

/-- A node that is let in ends with the winner of the offers made for it. -/
theorem lookup_receiveEntries {nodes : Membership} {names : Finset String}
    {node : String} (accepted : isRefusedName node = false)
    (letIn : LetIn nodes names node)
    {entries : List (Sigma fun _ : String => NodeInfo)}
    (named : ∀ entry ∈ entries,
      isRefusedName entry.1 = false → entry.1 ∈ names) :
    (receiveEntries entries nodes).lookup node =
      heartbeatContest.offerAll (nodes.lookup node)
        (offersFor node entries) := by
  induction entries generalizing nodes with
  | nil =>
      rfl
  | cons entry rest inductionHypothesis =>
      obtain ⟨name, info⟩ := entry
      obtain ⟨first, others⟩ := List.forall_mem_cons.mp named
      rw [receiveEntries,
        inductionHypothesis (letIn_receiveEntry letIn first) others]
      by_cases same : name = node
      · subst same
        have room : name ∈ nodes ∨ nodes.keys.card < maxClusterSize := by
          by_cases present : name ∈ nodes
          · exact Or.inl present
          · have grown : nodes.keys.card < (nodes.keys ∪ names).card :=
              Finset.card_lt_card ⟨Finset.subset_union_left, fun below =>
                present (Finmap.mem_keys.mp
                  (below (Finset.mem_union_right _ (first accepted))))⟩
            have bound := letIn.resolve_left present
            exact Or.inr (by omega)
        rw [receiveEntry_of_accepted nodes info accepted room,
          Finmap.lookup_insert, offersFor_cons_self, Contest.offerAll]
      · rw [offersFor_cons_of_ne same]
        rcases receiveEntry_cases nodes name info with
          kept | ⟨-, -, inserted⟩
        · rw [kept]
        · rw [inserted, Finmap.lookup_insert_of_ne nodes (Ne.symm same)]

/-- Nobody else gets in, and nothing else changes. -/
theorem lookup_receiveEntries_of_shut {nodes : Membership} {node : String}
    (shut : isRefusedName node = true ∨
      node ∉ nodes ∧ maxClusterSize ≤ nodes.keys.card)
    (entries : List (Sigma fun _ : String => NodeInfo)) :
    (receiveEntries entries nodes).lookup node = nodes.lookup node := by
  induction entries generalizing nodes with
  | nil =>
      rfl
  | cons entry rest inductionHypothesis =>
      obtain ⟨name, info⟩ := entry
      have kept : (receiveEntry nodes name info).lookup node =
          nodes.lookup node := by
        rcases receiveEntry_cases nodes name info with
          same | ⟨accepted, room, inserted⟩
        · rw [same]
        · have different : node ≠ name := by
            rintro rfl
            rcases shut with refused | ⟨absent, full⟩
            · rw [refused] at accepted
              cases accepted
            · have free := room.resolve_left absent
              omega
          rw [inserted, Finmap.lookup_insert_of_ne nodes different]
      rw [receiveEntries, inductionHypothesis, kept]
      rcases shut with refused | ⟨absent, full⟩
      · exact Or.inl refused
      · refine Or.inr ⟨?_, ?_⟩
        · rw [← Finmap.lookup_eq_none, kept, Finmap.lookup_eq_none]
          exact absent
        · have grown := Finset.card_le_card
            (keys_subset_receiveEntry nodes name info)
          omega

/-! ## Messages in any order -/

/-- Handle one authenticated message. -/
def receiveMessage (environment : Environment) (nodes : Membership)
    (listed : MembershipListing) : Membership :=
  (updateMembership environment nodes
    (some (.text environment.clusterSecret)) (some listed)).1

def receiveMessages (environment : Environment) (nodes : Membership)
    (schedule : List MembershipListing) : Membership :=
  schedule.foldl (receiveMessage environment) nodes

/-- Every message is handled at least once, with its entries in any order. -/
structure IsSchedule (messages : List Membership)
    (schedule : List MembershipListing) : Prop where
  only : ∀ listed ∈ schedule, listed.toFinmap ∈ messages
  all : ∀ message ∈ messages, ∃ listed ∈ schedule, listed.toFinmap = message

def OrderIndependent (environment : Environment) (nodes : Membership)
    (messages : List Membership) : Prop :=
  ∀ first second, IsSchedule messages first → IsSchedule messages second →
    receiveMessages environment nodes first =
      receiveMessages environment nodes second

/-- Some message has this entry. -/
def Offered (messages : List Membership) (node : String) (info : NodeInfo) :
    Prop :=
  ∃ message ∈ messages, message.lookup node = some info

/-- The names in the messages that `update_membership` does not skip. -/
def offeredNames (messages : List Membership) : Finset String :=
  messages.toFinset.biUnion fun message =>
    message.keys.filter fun node => isRefusedName node = false

/-- No new node gets in, or all of them do. -/
def RoomForAllOrNone (nodes : Membership) (messages : List Membership) :
    Prop :=
  maxClusterSize ≤ nodes.keys.card ∨
    (nodes.keys ∪ offeredNames messages).card ≤ maxClusterSize

/-- The entry has the largest heartbeat of all entries offered for the node,
and a larger one than what is there. -/
structure IsNewest (nodes : Membership) (messages : List Membership)
    (node : String) (info : NodeInfo) : Prop where
  offered : Offered messages node info
  largest : ∀ other, Offered messages node other →
    other.lastHeartbeat ≤ info.lastHeartbeat
  newer : ∀ existing ∈ nodes.lookup node,
    existing.lastHeartbeat < info.lastHeartbeat

/-- The newest entry of every node that is there or may get in is unique. -/
def NewestUnique (nodes : Membership) (messages : List Membership) : Prop :=
  ∀ node, isRefusedName node = false →
    (node ∈ nodes ∨ nodes.keys.card < maxClusterSize) →
    ∀ first second, IsNewest nodes messages node first →
      IsNewest nodes messages node second → first = second

theorem receiveMessages_eq (environment : Environment) (nodes : Membership)
    (schedule : List MembershipListing) :
    receiveMessages environment nodes schedule =
      receiveEntries (schedule.flatMap AList.entries) nodes := by
  induction schedule generalizing nodes with
  | nil =>
      rfl
  | cons listed rest inductionHypothesis =>
      have handled : receiveMessage environment nodes listed =
          receiveEntries listed.entries nodes := by
        simp [receiveMessage, updateMembership, presentsToken]
      rw [receiveMessages, List.foldl_cons, handled]
      rw [List.flatMap_cons, receiveEntries_append]
      exact inductionHypothesis _

theorem mem_offeredNames {messages : List Membership} {node : String} :
    node ∈ offeredNames messages ↔
      isRefusedName node = false ∧ ∃ info, Offered messages node info := by
  simp only [offeredNames, Finset.mem_biUnion, List.mem_toFinset,
    Finset.mem_filter, Finmap.mem_keys, Finmap.mem_iff, Offered]
  constructor
  · rintro ⟨message, member, ⟨info, found⟩, accepted⟩
    exact ⟨accepted, info, message, member, found⟩
  · rintro ⟨accepted, info, message, member, found⟩
    exact ⟨message, member, ⟨info, found⟩, accepted⟩

namespace IsSchedule

variable {messages : List Membership} {schedule : List MembershipListing}

theorem mem_offersFor (handled : IsSchedule messages schedule)
    {node : String} {info : NodeInfo} :
    info ∈ offersFor node (schedule.flatMap AList.entries) ↔
      Offered messages node info := by
  rw [DynaRust.Network.mem_offersFor, List.mem_flatMap]
  constructor
  · rintro ⟨listed, member, inside⟩
    exact ⟨listed.toFinmap, handled.only listed member,
      Finmap.lookup_eq_some_iff.mpr inside⟩
  · rintro ⟨message, member, found⟩
    obtain ⟨listed, scheduled, rfl⟩ := handled.all message member
    exact ⟨listed, scheduled, Finmap.lookup_eq_some_iff.mp found⟩

theorem named (handled : IsSchedule messages schedule) :
    ∀ entry ∈ schedule.flatMap AList.entries,
      isRefusedName entry.1 = false → entry.1 ∈ offeredNames messages := by
  intro entry member accepted
  have offered : Offered messages entry.1 entry.2 :=
    handled.mem_offersFor.mp (DynaRust.Network.mem_offersFor.mpr member)
  exact mem_offeredNames.mpr ⟨accepted, entry.2, offered⟩

/-- A repetition may come first. -/
theorem cons (handled : IsSchedule messages schedule)
    {listed : MembershipListing} (member : listed.toFinmap ∈ messages) :
    IsSchedule messages (listed :: schedule) where
  only := List.forall_mem_cons.mpr ⟨member, handled.only⟩
  all := by
    intro message among
    obtain ⟨other, scheduled, same⟩ := handled.all message among
    exact ⟨other, List.mem_cons_of_mem listed scheduled, same⟩

end IsSchedule

theorem exists_isSchedule (messages : List Membership) :
    ∃ schedule, IsSchedule messages schedule := by
  have listable : ∀ message : Membership, ∃ listed : MembershipListing,
      listed.toFinmap = message := by
    intro message
    induction message using Finmap.induction_on with
    | H listed =>
        exact ⟨listed, rfl⟩
  choose listing listed using listable
  refine ⟨messages.map listing, ?_, ?_⟩
  · intro scheduled member
    obtain ⟨message, among, rfl⟩ := List.mem_map.mp member
    rw [listed message]
    exact among
  · intro message member
    exact ⟨listing message, List.mem_map_of_mem member, listed message⟩

/-- Any entry of a message can be the first one in the iteration. -/
theorem exists_listing_cons {message : Membership} {node : String}
    {info : NodeInfo} (found : message.lookup node = some info) :
    ∃ (listed : MembershipListing)
      (rest : List (Sigma fun _ : String => NodeInfo)),
      listed.toFinmap = message ∧ listed.entries = ⟨node, info⟩ :: rest := by
  induction message using Finmap.induction_on with
  | H listed =>
      refine ⟨listed.insert node info, _, ?_, AList.entries_insert⟩
      rw [← Finmap.insert_toFinmap]
      apply Finmap.ext_lookup
      intro tested
      rw [HashMap.lookup_insert_eq_ite]
      split
      · rename_i same
        rw [same, found]
      · rfl

/-- The winner of the offers does not depend on their order when the newest
of them is unique. -/
theorem offerAll_eq_of_newestUnique {held : Option NodeInfo}
    {first second : List NodeInfo}
    (same : ∀ info, info ∈ first ↔ info ∈ second)
    (unique : ∀ one ∈ first, ∀ other ∈ first,
      one.lastHeartbeat = other.lastHeartbeat →
      (∀ offered ∈ first, offered.lastHeartbeat ≤ one.lastHeartbeat) →
      (∀ existing ∈ held, existing.lastHeartbeat < one.lastHeartbeat) →
      one = other) :
    heartbeatContest.offerAll held first =
      heartbeatContest.offerAll held second := by
  by_cases beaten : ∃ info ∈ first,
      ∀ existing ∈ held, existing.lastHeartbeat < info.lastHeartbeat
  · obtain ⟨some, someOffered, someNewer⟩ := beaten
    obtain ⟨newest, offered, largest⟩ :=
      first.toFinset.exists_max_image NodeInfo.lastHeartbeat
        ⟨some, List.mem_toFinset.mpr someOffered⟩
    rw [List.mem_toFinset] at offered
    have bound : ∀ info ∈ first,
        info.lastHeartbeat ≤ newest.lastHeartbeat :=
      fun info member => largest info (List.mem_toFinset.mpr member)
    have newer : ∀ existing ∈ held,
        existing.lastHeartbeat < newest.lastHeartbeat :=
      fun existing isHeld =>
        Nat.lt_of_lt_of_le (someNewer existing isHeld)
          (bound some someOffered)
    have wins : heartbeatContest.IsWinner
        {info | info ∈ first ∨ held = Option.some info} newest := by
      refine ⟨Or.inl offered, ?_⟩
      intro other among different
      rw [heartbeatContest_beats_iff]
      rcases among with listed | isHeld
      · apply Nat.lt_of_le_of_ne (bound other listed)
        intro tie
        exact different
          (unique newest offered other listed tie.symm bound newer).symm
      · exact newer other isHeld
    rw [wins.offerAll_eq offered (fun info member => Or.inl member)
        (fun existing isHeld => Or.inr isHeld),
      wins.offerAll_eq ((same newest).mp offered)
        (fun info member => Or.inl ((same info).mpr member))
        (fun existing isHeld => Or.inr isHeld)]
  · push Not at beaten
    cases held with
    | none =>
        have empty : first = [] := by
          apply List.eq_nil_iff_forall_not_mem.mpr
          intro info member
          obtain ⟨existing, isHeld, -⟩ := beaten info member
          cases isHeld
        have empty' : second = [] := by
          apply List.eq_nil_iff_forall_not_mem.mpr
          intro info member
          have listed := (same info).mpr member
          rw [empty] at listed
          cases listed
        rw [empty, empty']
    | some existing =>
        have refused : ∀ info ∈ first,
            heartbeatContest.beats info existing = false := by
          intro info member
          obtain ⟨other, isHeld, bound⟩ := beaten info member
          cases isHeld
          exact (heartbeatContest_beats_eq_false_iff info existing).mpr bound
        rw [heartbeatContest.offerAll_refused refused,
          heartbeatContest.offerAll_refused fun info member =>
            refused info ((same info).mpr member)]

/-! ## When the order does not matter -/

private theorem letIn_of_roomForAllOrNone {nodes : Membership}
    {messages : List Membership} (room : RoomForAllOrNone nodes messages)
    {node : String}
    (open_ : node ∈ nodes ∨ nodes.keys.card < maxClusterSize) :
    LetIn nodes (offeredNames messages) node := by
  rcases open_ with present | free
  · exact Or.inl present
  · exact Or.inr (room.resolve_left (Nat.not_le.mpr free))

private theorem orderIndependent_of_roomForAllOrNone
    {environment : Environment} {nodes : Membership}
    {messages : List Membership} (room : RoomForAllOrNone nodes messages)
    (unique : NewestUnique nodes messages) :
    OrderIndependent environment nodes messages := by
  intro first second firstHandled secondHandled
  rw [receiveMessages_eq, receiveMessages_eq]
  apply Finmap.ext_lookup
  intro node
  by_cases shut : isRefusedName node = true ∨
      node ∉ nodes ∧ maxClusterSize ≤ nodes.keys.card
  · rw [lookup_receiveEntries_of_shut shut,
      lookup_receiveEntries_of_shut shut]
  · rw [not_or, Bool.not_eq_true, not_and_or, not_not, Nat.not_le] at shut
    obtain ⟨accepted, enters⟩ := shut
    have letIn := letIn_of_roomForAllOrNone room enters
    rw [lookup_receiveEntries accepted letIn firstHandled.named,
      lookup_receiveEntries accepted letIn secondHandled.named]
    apply offerAll_eq_of_newestUnique
    · intro info
      rw [firstHandled.mem_offersFor, secondHandled.mem_offersFor]
    · intro one oneListed other otherListed tie bound newer
      have largest : ∀ offered, Offered messages node offered →
          offered.lastHeartbeat ≤ one.lastHeartbeat :=
        fun offered isOffered =>
          bound offered (firstHandled.mem_offersFor.mpr isOffered)
      have oneNewest : IsNewest nodes messages node one :=
        ⟨firstHandled.mem_offersFor.mp oneListed, largest, newer⟩
      have otherNewest : IsNewest nodes messages node other :=
        ⟨firstHandled.mem_offersFor.mp otherListed,
          fun offered isOffered => tie ▸ largest offered isOffered,
          fun existing isHeld => tie ▸ newer existing isHeld⟩
      exact unique node accepted enters one other oneNewest otherNewest

/-- A name that stays outside in one order is the first to enter in
another. -/
private theorem roomForAllOrNone_of_orderIndependent
    {environment : Environment} {nodes : Membership}
    {messages : List Membership}
    (independent : OrderIndependent environment nodes messages) :
    RoomForAllOrNone nodes messages := by
  by_contra crowded
  rw [RoomForAllOrNone, not_or, Nat.not_le, Nat.not_le] at crowded
  obtain ⟨free, many⟩ := crowded
  obtain ⟨schedule, handled⟩ := exists_isSchedule messages
  have bounded := card_receiveEntries_le (Nat.le_of_lt free)
    (schedule.flatMap AList.entries)
  obtain ⟨node, among, outside⟩ :=
    Finset.exists_mem_notMem_of_card_lt_card (Nat.lt_of_le_of_lt bounded many)
  have absent : node ∉ nodes.keys := fun present =>
    outside (keys_subset_receiveEntries _ nodes present)
  obtain ⟨accepted, info, message, member, found⟩ :=
    mem_offeredNames.mp ((Finset.mem_union.mp among).resolve_left absent)
  obtain ⟨listed, rest, rfl, entries⟩ := exists_listing_cons found
  have same := independent schedule (listed :: schedule) handled
    (handled.cons member)
  rw [receiveMessages_eq, receiveMessages_eq, List.flatMap_cons, entries,
    List.cons_append, receiveEntries,
    receiveEntry_of_accepted nodes info accepted (Or.inr free)] at same
  apply outside
  rw [same]
  apply keys_subset_receiveEntries
  rw [keys_insert]
  exact Finset.mem_insert_self node nodes.keys

/-- A newest entry that comes first stays. -/
private theorem lookup_of_newest_first {environment : Environment}
    {nodes : Membership} {messages : List Membership}
    {schedule : List MembershipListing}
    (room : RoomForAllOrNone nodes messages)
    (handled : IsSchedule messages schedule) {node : String}
    (accepted : isRefusedName node = false)
    (enters : node ∈ nodes ∨ nodes.keys.card < maxClusterSize)
    {info : NodeInfo} (newest : IsNewest nodes messages node info) :
    ∃ other, IsSchedule messages other ∧
      (receiveMessages environment nodes other).lookup node = some info := by
  obtain ⟨message, member, found⟩ := newest.offered
  obtain ⟨listed, rest, rfl, entries⟩ := exists_listing_cons found
  have repeated := handled.cons member
  refine ⟨listed :: schedule, repeated, ?_⟩
  have letIn := letIn_of_roomForAllOrNone room enters
  have refused : ∀ offered ∈ offersFor node
      (rest ++ schedule.flatMap AList.entries),
      heartbeatContest.beats offered info = false := by
    intro offered listedLater
    rw [heartbeatContest_beats_eq_false_iff]
    apply newest.largest
    apply repeated.mem_offersFor.mp
    rw [List.flatMap_cons, entries, List.cons_append, offersFor_cons_self]
    exact List.mem_cons_of_mem info listedLater
  have first : heartbeatContest.offer (nodes.lookup node) info = info := by
    cases held : nodes.lookup node with
    | none =>
        rfl
    | some existing =>
        apply heartbeatContest.offer_of_beats
        exact (heartbeatContest_beats_iff info existing).mpr
          (newest.newer existing held)
  rw [receiveMessages_eq,
    lookup_receiveEntries accepted letIn repeated.named, List.flatMap_cons,
    entries, List.cons_append, offersFor_cons_self, Contest.offerAll, first,
    heartbeatContest.offerAll_refused refused]

private theorem newestUnique_of_orderIndependent
    {environment : Environment} {nodes : Membership}
    {messages : List Membership}
    (independent : OrderIndependent environment nodes messages) :
    NewestUnique nodes messages := by
  have room := roomForAllOrNone_of_orderIndependent independent
  obtain ⟨schedule, handled⟩ := exists_isSchedule messages
  intro node accepted enters first second firstNewest secondNewest
  obtain ⟨one, oneHandled, oneEnds⟩ :=
    lookup_of_newest_first room handled accepted enters firstNewest
  obtain ⟨other, otherHandled, otherEnds⟩ :=
    lookup_of_newest_first room handled accepted enters secondNewest
  have same := independent one other oneHandled otherHandled
  rw [same, otherEnds] at oneEnds
  exact (Option.some.inj oneEnds).symm

/-- The result of a collection of messages is the same for every order, every
order of iteration and every repetition exactly when there is room for all new
nodes or for none, and no node has two different newest entries. -/
theorem orderIndependent_iff (environment : Environment)
    (nodes : Membership) (messages : List Membership) :
    OrderIndependent environment nodes messages ↔
      RoomForAllOrNone nodes messages ∧ NewestUnique nodes messages := by
  constructor
  · intro independent
    exact ⟨roomForAllOrNone_of_orderIndependent independent,
      newestUnique_of_orderIndependent independent⟩
  · rintro ⟨room, unique⟩
    exact orderIndependent_of_roomForAllOrNone room unique

/-- One peer has seen node B answer at 10; another one has then seen it fail,
which leaves the heartbeat as it is. -/
def answered : MembershipListing :=
  AList.singleton "B" ⟨.active, 10⟩

def failed : MembershipListing :=
  AList.singleton "B" ⟨.suspect, 10⟩

/-- Node A believes the peer it hears first. -/
theorem tiedHeartbeats_orderMatters :
    (receiveMessages bareEnvironment (initialNodes "A" 1)
        [answered, failed]).lookup "B" = some ⟨.active, 10⟩ ∧
      (receiveMessages bareEnvironment (initialNodes "A" 1)
        [failed, answered]).lookup "B" = some ⟨.suspect, 10⟩ ∧
      ¬ OrderIndependent bareEnvironment (initialNodes "A" 1)
        [answered.toFinmap, failed.toFinmap] := by
  have first : (receiveMessages bareEnvironment (initialNodes "A" 1)
      [answered, failed]).lookup "B" = some ⟨.active, 10⟩ := by
    decide
  have second : (receiveMessages bareEnvironment (initialNodes "A" 1)
      [failed, answered]).lookup "B" = some ⟨.suspect, 10⟩ := by
    decide
  refine ⟨first, second, ?_⟩
  intro independent
  have same := independent [answered, failed] [failed, answered]
    ⟨by simp, by simp⟩ ⟨by simp, by simp⟩
  rw [same, second] at first
  cases first

end DynaRust.Network
