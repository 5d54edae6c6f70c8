import DynaRust.Foundation.Circle
import DynaRust.Network.Ring

/-!
# The exact walk

The map filled by the nested loops is ascending, so its two ranges read one
after the other are the clockwise walk from the hash of the key.  The targets
are the first nodes met on it.
-/

namespace DynaRust.Network

open DynaRust.Foundation

/-! ## The labels of the virtual nodes -/

private theorem length_toString_of_lt :
    ∀ v < virtualNodes, (toString v).toList.length = 1 := by
  decide

private theorem toString_inj_of_lt :
    ∀ v < virtualNodes, ∀ w < virtualNodes, toString v = toString w →
      v = w := by
  decide

/-- The label of a virtual node tells its node and its number, which is one
digit. -/
theorem virtualLabel_inj {first second : String} {v w : Nat}
    (boundV : v < virtualNodes) (boundW : w < virtualNodes) :
    virtualLabel first v = virtualLabel second w ↔
      first = second ∧ v = w := by
  constructor
  · intro same
    have lists := congrArg String.toList same
    simp only [virtualLabel, String.toList_append] at lists
    have sameLength : (toString v).toList.length =
        (toString w).toList.length := by
      rw [length_toString_of_lt v boundV, length_toString_of_lt w boundW]
    obtain ⟨nodes, digits⟩ := List.append_inj' lists sameLength
    have sameNode : first = second :=
      String.toList_inj.mp (List.append_cancel_right nodes)
    have sameNumber : v = w :=
      toString_inj_of_lt v boundV w boundW (String.toList_inj.mp digits)
    exact ⟨sameNode, sameNumber⟩
  · rintro ⟨rfl, rfl⟩
    rfl

/-- The labels never clash, so a collision is one of the hash. -/
theorem noLabelCollisions_iff {hash : String → UInt64}
    {nodes : List String} :
    NoLabelCollisions hash nodes ↔
      ∀ first ∈ nodes, ∀ second ∈ nodes, ∀ v < virtualNodes,
        ∀ w < virtualNodes,
          virtualLabel first v ≠ virtualLabel second w →
            hash (virtualLabel first v) ≠ hash (virtualLabel second w) := by
  constructor
  · intro noCollisions first inside second inside' v boundV w boundW differ
      clash
    have same := noCollisions first inside second inside' v boundV w boundW
      clash
    exact differ ((virtualLabel_inj boundV boundW).mpr same)
  · intro injective first inside second inside' v boundV w boundW clash
    by_contra differ
    exact injective first inside second inside' v boundV w boundW
      (fun same => differ ((virtualLabel_inj boundV boundW).mp same)) clash

/-! ## The ring is ascending -/

theorem ascending_ringInsert {ring : List (UInt64 × String)}
    (ascending : ring.Pairwise fun first second => first.1 < second.1)
    (position : UInt64) (node : String) :
    (ringInsert position node ring).Pairwise
      fun first second => first.1 < second.1 := by
  induction ring with
  | nil =>
      exact List.pairwise_singleton _ _
  | cons entry rest inductionHypothesis =>
      obtain ⟨above, ascendingRest⟩ := List.pairwise_cons.mp ascending
      rw [ringInsert]
      split
      · rename_i before
        apply List.pairwise_cons.mpr
        refine ⟨?_, ascending⟩
        intro other member
        rcases List.mem_cons.mp member with rfl | later
        · exact before
        · exact UInt64.lt_trans before (above other later)
      · rename_i notBefore
        split
        · rename_i same
          apply List.pairwise_cons.mpr
          refine ⟨?_, ascendingRest⟩
          intro other later
          rw [same]
          exact above other later
        · rename_i different
          have after : entry.1 < position :=
            UInt64.lt_of_le_of_ne (UInt64.not_lt.mp notBefore)
              (Ne.symm different)
          apply List.pairwise_cons.mpr
          refine ⟨?_, inductionHypothesis ascendingRest⟩
          intro other member
          rcases eq_or_mem_of_mem_ringInsert member with rfl | later
          · exact after
          · exact above other later

theorem ascending_buildRing (hash : String → UInt64) (nodes : List String) :
    (buildRing hash nodes).Pairwise
      fun first second => first.1 < second.1 := by
  rw [buildRing_eq]
  suffices keeps : ∀ (points ring : List (UInt64 × String)),
      ring.Pairwise (fun first second => first.1 < second.1) →
        (points.foldl (fun ring point => ringInsert point.1 point.2 ring)
          ring).Pairwise fun first second => first.1 < second.1 from
    keeps _ [] List.Pairwise.nil
  intro points
  induction points with
  | nil =>
      intro ring ascending
      exact ascending
  | cons point rest inductionHypothesis =>
      intro ring ascending
      exact inductionHypothesis _
        (ascending_ringInsert ascending point.1 point.2)

/-- Without collisions no two virtual nodes share a position. -/
theorem scattered_ringPoints {hash : String → UInt64} {nodes : List String}
    (distinct : nodes.Nodup)
    (noCollisions : NoLabelCollisions hash nodes) :
    Scattered (ringPoints hash nodes) := by
  apply List.pairwise_flatMap.mpr
  constructor
  · intro node inside
    apply List.pairwise_map.mpr
    refine List.Pairwise.imp_of_mem ?_ List.nodup_range
    intro v w boundV boundW different clash
    exact different (noCollisions node inside node inside v
      (List.mem_range.mp boundV) w (List.mem_range.mp boundW) clash).2
  · refine List.Pairwise.imp_of_mem ?_ distinct
    intro first second inside inside' different point onFirst other onSecond
    obtain ⟨v, boundV, rfl⟩ := List.mem_map.mp onFirst
    obtain ⟨w, boundW, rfl⟩ := List.mem_map.mp onSecond
    intro clash
    exact different (noCollisions first inside second inside' v
      (List.mem_range.mp boundV) w (List.mem_range.mp boundW) clash).1

theorem perm_buildRing {hash : String → UInt64} {nodes : List String}
    (distinct : nodes.Nodup)
    (noCollisions : NoLabelCollisions hash nodes) :
    (buildRing hash nodes).Perm (ringPoints hash nodes) := by
  have onceOnRing : (buildRing hash nodes).Nodup := by
    refine (ascending_buildRing hash nodes).imp ?_
    rintro first second smaller rfl
    exact UInt64.lt_irrefl _ smaller
  have oncePlaced : (ringPoints hash nodes).Nodup := by
    refine (scattered_ringPoints distinct noCollisions).imp ?_
    rintro first second different rfl
    exact different rfl
  apply (List.perm_ext_iff_of_nodup onceOnRing oncePlaced).mpr
  intro point
  exact mem_buildRing_iff noCollisions

/-! ## The targets -/

/-- The nodes in the order of their virtual nodes on the clockwise walk from
the hash of the key. -/
def ringWalk (hash : String → UInt64) (key : String) (nodes : List String) :
    List String :=
  (clockwise (hash key) (ringPoints hash nodes)).map Prod.snd

theorem mem_ringWalk {hash : String → UInt64} {key : String}
    {nodes : List String} {node : String} :
    node ∈ ringWalk hash key nodes ↔ node ∈ nodes := by
  rw [ringWalk, List.mem_map]
  simp only [(perm_clockwise (hash key) (ringPoints hash nodes)).mem_iff,
    mem_ringPoints]
  constructor
  · rintro ⟨point, ⟨inside, -⟩, rfl⟩
    exact inside
  · intro inside
    exact ⟨(hash (virtualLabel node 0), node),
      ⟨inside, 0, by decide, rfl⟩, rfl⟩

/-- The loop takes the next nodes not met yet until there are enough. -/
theorem collectTargets_eq_take {replicationFactor : Nat}
    {targets : List String} (incomplete : targets.length < replicationFactor)
    (walk : List String) :
    collectTargets replicationFactor targets walk =
      (targets ++ (firstMet walk).filter fun node =>
        node ∉ targets).take replicationFactor := by
  induction walk generalizing targets with
  | nil =>
      rw [collectTargets, firstMet, List.filter_nil, List.append_nil,
        List.take_of_length_le (Nat.le_of_lt incomplete)]
  | cons node rest inductionHypothesis =>
      rw [collectTargets]
      split
      · rename_i taken
        have dropsNode : (firstMet (node :: rest)).filter
            (fun other => decide (other ∉ targets)) =
              (firstMet rest).filter fun other => decide (other ∉ targets) := by
          rw [firstMet, List.filter_cons_of_neg (by simpa using taken),
            List.filter_filter]
          apply List.filter_congr
          intro other _
          by_cases isTaken : other ∈ targets
          · simp [isTaken]
          · have different : other ≠ node := by
              rintro rfl
              exact isTaken taken
            simp [isTaken, different]
        rw [inductionHypothesis incomplete, dropsNode]
      · rename_i fresh
        have takesNode : targets ++ (firstMet (node :: rest)).filter
            (fun other => decide (other ∉ targets)) =
              targets ++ [node] ++ (firstMet rest).filter
                fun other => decide (other ∉ targets ++ [node]) := by
          rw [firstMet, List.filter_cons_of_pos (by simpa using fresh),
            List.filter_filter, List.append_assoc, List.singleton_append]
          congr 2
          apply List.filter_congr
          intro other _
          simp [not_or]
        rw [takesNode]
        split
        · rename_i complete
          exact (List.take_left' complete).symm
        · rename_i notComplete
          apply inductionHypothesis
          rw [List.length_append, List.length_singleton] at notComplete ⊢
          omega

/-- The walk meets every node. -/
theorem perm_firstMet_ringWalk (hash : String → UInt64) (key : String)
    {nodes : List String} (distinct : nodes.Nodup) :
    (firstMet (ringWalk hash key nodes)).Perm nodes := by
  apply (List.perm_ext_iff_of_nodup (nodup_firstMet _) distinct).mpr
  intro node
  rw [mem_firstMet, mem_ringWalk]

/-- The code takes the first nodes of the walk. -/
theorem getReplicationNodes_eq_take {hash : String → UInt64}
    {nodes : List String} {replicationFactor : Nat}
    (distinct : nodes.Nodup) (noCollisions : NoLabelCollisions hash nodes)
    (positive : 1 ≤ replicationFactor) (key : String) :
    getReplicationNodes hash key nodes replicationFactor =
      (firstMet (ringWalk hash key nodes)).take replicationFactor := by
  have size := (perm_firstMet_ringWalk hash key distinct).length_eq
  rw [getReplicationNodes]
  split
  · rename_i empty
    rw [List.isEmpty_iff.mp empty, List.length_nil] at size
    rw [List.isEmpty_iff.mp empty, List.length_eq_zero_iff.mp size,
      List.take_nil]
  · rename_i someNode
    have nonempty : 0 < nodes.length := by
      rw [List.length_pos_iff]
      simpa using someNode
    have enough : ([] : List String).length < min replicationFactor nodes.length := by
      rw [List.length_nil]
      omega
    have walk : ((buildRing hash nodes).filter
          fun entry => hash key ≤ entry.1).map Prod.snd ++
        ((buildRing hash nodes).filter
          fun entry => entry.1 < hash key).map Prod.snd =
            ringWalk hash key nodes := by
      rw [← List.map_append, clockwise_of_ascending (hash key)
        (ascending_buildRing hash nodes)
        (perm_buildRing distinct noCollisions), ringWalk]
    simp only [walk, collectTargets_eq_take enough, List.nil_append,
      List.not_mem_nil, not_false_eq_true, decide_true, List.filter_true]
    rw [← size]
    exact List.take_eq_take_min.symm

/-- Asked for all nodes, the walk returns each of them once. -/
theorem perm_getReplicationNodes {hash : String → UInt64} (key : String)
    {nodes : List String} (distinct : nodes.Nodup)
    (noCollisions : NoLabelCollisions hash nodes) :
    (getReplicationNodes hash key nodes nodes.length).Perm nodes := by
  have all := perm_firstMet_ringWalk hash key distinct
  cases nodes with
  | nil =>
      rfl
  | cons node rest =>
      have positive : 1 ≤ (node :: rest).length :=
        Nat.succ_le_succ (Nat.zero_le rest.length)
      rw [getReplicationNodes_eq_take distinct noCollisions positive,
        List.take_of_length_le (Nat.le_of_eq all.length_eq)]
      exact all

theorem NoLabelCollisions.subset {hash : String → UInt64}
    {nodes fewer : List String}
    (noCollisions : NoLabelCollisions hash nodes) (included : fewer ⊆ nodes) :
    NoLabelCollisions hash fewer :=
  fun first inside second inside' =>
    noCollisions first (included inside) second (included inside')

/-- The walk does not depend on the order of the node list. -/
theorem ringWalk_perm {hash : String → UInt64} {nodes permuted : List String}
    (distinct : nodes.Nodup) (noCollisions : NoLabelCollisions hash nodes)
    (same : permuted.Perm nodes) (key : String) :
    ringWalk hash key permuted = ringWalk hash key nodes := by
  have samePoints : (ringPoints hash nodes).Perm (ringPoints hash permuted) :=
    same.symm.flatMap_right _
  rw [ringWalk, ringWalk,
    clockwise_perm (scattered_ringPoints distinct noCollisions) samePoints]

/-- The targets are the first nodes met on the clockwise walk over all virtual
nodes. -/
theorem getReplicationNodes_exact {hash : String → UInt64} (key : String)
    {nodes : List String} {replicationFactor : Nat}
    (distinct : nodes.Nodup) (noCollisions : NoLabelCollisions hash nodes)
    (positive : 1 ≤ replicationFactor) :
    getReplicationNodes hash key nodes replicationFactor =
        (firstMet (ringWalk hash key nodes)).take
          (min replicationFactor nodes.length) ∧
      (getReplicationNodes hash key nodes replicationFactor).length =
        min replicationFactor nodes.length ∧
      (getReplicationNodes hash key nodes replicationFactor).Nodup ∧
      getReplicationNodes hash key nodes replicationFactor ⊆ nodes ∧
      (nodes.length ≤ replicationFactor →
        (getReplicationNodes hash key nodes replicationFactor).Perm nodes) ∧
      (∀ permuted : List String, permuted.Perm nodes →
        getReplicationNodes hash key permuted replicationFactor =
          getReplicationNodes hash key nodes replicationFactor) ∧
      ∀ larger, replicationFactor ≤ larger →
        getReplicationNodes hash key nodes replicationFactor <+:
          getReplicationNodes hash key nodes larger := by
  have met := perm_firstMet_ringWalk hash key distinct
  have size := met.length_eq
  rw [getReplicationNodes_eq_take distinct noCollisions positive]
  refine ⟨?_, ?_, ?_, ?_, ?_, ?_, ?_⟩
  · rw [← size]
    exact List.take_eq_take_min
  · rw [List.length_take, size]
  · exact (nodup_firstMet _).sublist (List.take_sublist _ _)
  · exact List.Subset.trans (List.take_subset _ _) met.subset
  · intro all
    rw [List.take_of_length_le (size ▸ all)]
    exact met
  · intro permuted same
    rw [getReplicationNodes_eq_take (same.nodup_iff.mpr distinct)
      (noCollisions.subset same.subset) positive,
      ringWalk_perm distinct noCollisions same]
  · intro larger more
    rw [getReplicationNodes_eq_take distinct noCollisions
      (Nat.le_trans positive more)]
    exact List.take_prefix_take_left more

/-- Two nodes, with a hash function that spreads their labels. -/
theorem getReplicationNodes_exact_two :
    getReplicationNodes
        (fun text => text.toList.foldl
          (fun hash char => hash * 31 + char.toNat.toUInt64) 7)
        "k" ["b", "a"] 5 =
      getReplicationNodes
        (fun text => text.toList.foldl
          (fun hash char => hash * 31 + char.toNat.toUInt64) 7)
        "k" ["a", "b"] 5 := by
  have noCollisions : NoLabelCollisions
      (fun text => text.toList.foldl
        (fun hash char => hash * 31 + char.toNat.toUInt64) 7)
      ["a", "b"] := by
    decide +kernel
  have exact := getReplicationNodes_exact "k" (by decide) noCollisions
    (by decide : 1 ≤ 5)
  exact exact.2.2.2.2.2.1 ["b", "a"] (List.Perm.swap _ _ [])

end DynaRust.Network
