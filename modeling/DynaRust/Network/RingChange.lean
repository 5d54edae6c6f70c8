import DynaRust.Network.RingWalk

/-!
# A node more or less on the ring

The virtual nodes of an added node are put between the others without moving
them, so the walk without the added node is the old walk, and the targets of a
key change in at most one place.
-/

namespace DynaRust.Network

open DynaRust.Foundation

/-- Without the points of the added node the old points are left. -/
theorem ringPoints_filter_added {hash : String → UInt64}
    {nodes : List String} {added : String} (fresh : added ∉ nodes) :
    (ringPoints hash (added :: nodes)).filter
        (fun point => point.2 != added) = ringPoints hash nodes := by
  rw [ringPoints, List.flatMap_cons, ← ringPoints, List.filter_append]
  have ownGone : ((List.range virtualNodes).map fun v =>
      (hash (virtualLabel added v), added)).filter
        (fun point => point.2 != added) = [] := by
    apply List.filter_eq_nil_iff.mpr
    intro point member
    obtain ⟨v, -, rfl⟩ := List.mem_map.mp member
    simp
  have othersStay : (ringPoints hash nodes).filter
      (fun point => point.2 != added) = ringPoints hash nodes := by
    apply List.filter_eq_self.mpr
    intro point member
    have inside : point.2 ∈ nodes := (mem_ringPoints.mp member).1
    simp only [bne_iff_ne]
    rintro isAdded
    exact fresh (isAdded ▸ inside)
  rw [ownGone, othersStay, List.nil_append]

/-- Passing over the added node, the new walk is the old one. -/
theorem ringWalk_filter_added {hash : String → UInt64}
    {nodes grown : List String} {added : String} (distinct : nodes.Nodup)
    (fresh : added ∉ nodes) (adds : grown.Perm (added :: nodes))
    (noCollisions : NoLabelCollisions hash (added :: nodes)) (key : String) :
    (ringWalk hash key grown).filter (fun node => node != added) =
      ringWalk hash key nodes := by
  have distinctGrown : (added :: nodes).Nodup :=
    List.nodup_cons.mpr ⟨fresh, distinct⟩
  have keepsOthers : (fun node => node != added) ∘ Prod.snd =
      fun point : UInt64 × String => point.2 != added :=
    rfl
  rw [ringWalk_perm distinctGrown noCollisions adds, ringWalk,
    List.filter_map, keepsOthers,
    clockwise_filter (scattered_ringPoints distinctGrown noCollisions),
    ringPoints_filter_added fresh, ← ringWalk]

theorem firstMet_ringWalk_erase_added {hash : String → UInt64}
    {nodes grown : List String} {added : String} (distinct : nodes.Nodup)
    (fresh : added ∉ nodes) (adds : grown.Perm (added :: nodes))
    (noCollisions : NoLabelCollisions hash (added :: nodes)) (key : String) :
    (firstMet (ringWalk hash key grown)).erase added =
      firstMet (ringWalk hash key nodes) := by
  rw [(nodup_firstMet _).erase_eq_filter, ← firstMet_filter,
    ringWalk_filter_added distinct fresh adds noCollisions]

/-- An added node takes the place of at most one target of a key, and nothing
else changes. -/
theorem getReplicationNodes_add {hash : String → UInt64} (key : String)
    {nodes grown : List String} {added : String} {replicationFactor : Nat}
    (distinct : nodes.Nodup) (fresh : added ∉ nodes)
    (adds : grown.Perm (added :: nodes))
    (noCollisions : NoLabelCollisions hash (added :: nodes))
    (positive : 1 ≤ replicationFactor) :
    (getReplicationNodes hash key grown replicationFactor).erase added <+:
        getReplicationNodes hash key nodes replicationFactor ∧
      (added ∉ getReplicationNodes hash key grown replicationFactor →
        getReplicationNodes hash key grown replicationFactor =
          getReplicationNodes hash key nodes replicationFactor) ∧
      (∀ target ∈ getReplicationNodes hash key grown replicationFactor,
        target ∉ getReplicationNodes hash key nodes replicationFactor →
          target = added) ∧
      ∀ first ∈ getReplicationNodes hash key nodes replicationFactor,
        first ∉ getReplicationNodes hash key grown replicationFactor →
          ∀ second ∈ getReplicationNodes hash key nodes replicationFactor,
            second ∉ getReplicationNodes hash key grown replicationFactor →
              first = second := by
  have distinctGrown : grown.Nodup :=
    adds.nodup_iff.mpr (List.nodup_cons.mpr ⟨fresh, distinct⟩)
  have noCollisionsGrown : NoLabelCollisions hash grown :=
    noCollisions.subset adds.subset
  have noCollisionsOld : NoLabelCollisions hash nodes :=
    noCollisions.subset (List.subset_cons_self added nodes)
  have met : (firstMet (ringWalk hash key grown)).Nodup :=
    nodup_firstMet (ringWalk hash key grown)
  rw [getReplicationNodes_eq_take distinctGrown noCollisionsGrown positive,
    getReplicationNodes_eq_take distinct noCollisionsOld positive,
    ← firstMet_ringWalk_erase_added distinct fresh adds noCollisions key]
  have kept := take_erase_prefix met added replicationFactor
  refine ⟨kept, ?_, ?_, ?_⟩
  · intro absent
    exact (take_erase_of_notMem met absent).symm
  · intro target taken lost
    by_contra different
    have remains : target ∈
        ((firstMet (ringWalk hash key grown)).take
          replicationFactor).erase added :=
      (List.mem_erase_of_ne different).mpr taken
    exact lost (kept.subset remains)
  · intro first firstTaken firstLost second secondTaken secondLost
    exact take_erase_new_unique met firstTaken firstLost secondTaken
      secondLost

/-- The node "b" comes to "a", with one target for a key. -/
theorem getReplicationNodes_add_second :
    (getReplicationNodes
        (fun text => text.toList.foldl
          (fun hash char => hash * 31 + char.toNat.toUInt64) 7)
        "k" ["a", "b"] 1).erase "b" <+:
      getReplicationNodes
        (fun text => text.toList.foldl
          (fun hash char => hash * 31 + char.toNat.toUInt64) 7)
        "k" ["a"] 1 := by
  have noCollisions : NoLabelCollisions
      (fun text => text.toList.foldl
        (fun hash char => hash * 31 + char.toNat.toUInt64) 7)
      ["b", "a"] := by
    decide +kernel
  exact (getReplicationNodes_add "k" (List.nodup_singleton "a") (by decide)
    (List.Perm.swap _ _ []) noCollisions (Nat.le_refl 1)).1

end DynaRust.Network
