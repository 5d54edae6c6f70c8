import DynaRust.Network.Replication
import Mathlib.Data.List.Perm.Basic

/-!
# The nodes on the ring

Every node stands on the ring as long as no virtual-node label of another node
has the same hash.
-/

namespace DynaRust.Network

open DynaRust.Foundation

/-- Virtual-node labels of the listed nodes have different hashes. -/
def NoLabelCollisions (hash : String → UInt64) (nodes : List String) : Prop :=
  ∀ first ∈ nodes, ∀ second ∈ nodes, ∀ v < virtualNodes, ∀ w < virtualNodes,
    hash (virtualLabel first v) = hash (virtualLabel second w) →
      first = second ∧ v = w

instance (hash : String → UInt64) (nodes : List String) :
    Decidable (NoLabelCollisions hash nodes) :=
  inferInstanceAs (Decidable (∀ first ∈ nodes, ∀ second ∈ nodes,
    ∀ v < virtualNodes, ∀ w < virtualNodes, _ → _))

/-! ## Filling the ring -/

theorem mem_ringInsert (position : UInt64) (node : String)
    (ring : List (UInt64 × String)) :
    (position, node) ∈ ringInsert position node ring := by
  induction ring with
  | nil =>
      exact List.mem_singleton.mpr rfl
  | cons entry rest inductionHypothesis =>
      rw [ringInsert]
      split
      · exact List.mem_cons_self
      · split
        · exact List.mem_cons_self
        · exact List.mem_cons_of_mem entry inductionHypothesis

theorem mem_ringInsert_of_ne {position : UInt64} {node : String}
    {ring : List (UInt64 × String)} {entry : UInt64 × String}
    (member : entry ∈ ring) (different : entry.1 ≠ position) :
    entry ∈ ringInsert position node ring := by
  induction ring with
  | nil =>
      cases member
  | cons first rest inductionHypothesis =>
      rw [ringInsert]
      split
      · exact List.mem_cons_of_mem _ member
      · rcases List.mem_cons.mp member with rfl | later
        · split
          · rename_i same
            exact absurd same.symm different
          · exact List.mem_cons_self
        · split
          · exact List.mem_cons_of_mem _ later
          · exact List.mem_cons_of_mem _ (inductionHypothesis later)

theorem eq_or_mem_of_mem_ringInsert {position : UInt64} {node : String}
    {ring : List (UInt64 × String)} {entry : UInt64 × String}
    (member : entry ∈ ringInsert position node ring) :
    entry = (position, node) ∨ entry ∈ ring := by
  induction ring with
  | nil =>
      exact Or.inl (List.mem_singleton.mp member)
  | cons first rest inductionHypothesis =>
      rw [ringInsert] at member
      split at member
      · exact List.mem_cons.mp member
      · split at member
        · rcases List.mem_cons.mp member with isNew | later
          · exact Or.inl isNew
          · exact Or.inr (List.mem_cons_of_mem first later)
        · rcases List.mem_cons.mp member with isFirst | later
          · exact Or.inr (isFirst ▸ List.mem_cons_self)
          · exact (inductionHypothesis later).imp_right
              (List.mem_cons_of_mem first)

/-- The points in the order in which the nested loops insert them. -/
def ringPoints (hash : String → UInt64) (nodes : List String) :
    List (UInt64 × String) :=
  nodes.flatMap fun node =>
    (List.range virtualNodes).map fun v => (hash (virtualLabel node v), node)

theorem mem_ringPoints {hash : String → UInt64} {nodes : List String}
    {point : UInt64 × String} :
    point ∈ ringPoints hash nodes ↔
      point.2 ∈ nodes ∧ ∃ v < virtualNodes,
        point.1 = hash (virtualLabel point.2 v) := by
  simp only [ringPoints, List.mem_flatMap, List.mem_map, List.mem_range]
  constructor
  · rintro ⟨node, member, v, bound, rfl⟩
    exact ⟨member, v, bound, rfl⟩
  · rintro ⟨member, v, bound, position⟩
    exact ⟨point.2, member, v, bound, by rw [← position]⟩

theorem buildRing_eq (hash : String → UInt64) (nodes : List String) :
    buildRing hash nodes = (ringPoints hash nodes).foldl
      (fun ring point => ringInsert point.1 point.2 ring) [] := by
  simp only [buildRing, ringPoints, List.foldl_flatMap, List.foldl_map]

/-- Points at different positions all stay on the ring. -/
private theorem mem_foldl_ringInsert {points ring : List (UInt64 × String)}
    {entry : UInt64 × String}
    (distinct : ∀ point ∈ points, point.1 = entry.1 → point = entry)
    (member : entry ∈ points ∨ entry ∈ ring) :
    entry ∈ points.foldl
      (fun ring point => ringInsert point.1 point.2 ring) ring := by
  induction points generalizing ring with
  | nil =>
      exact member.resolve_left List.not_mem_nil
  | cons point rest inductionHypothesis =>
      rw [List.foldl_cons]
      apply inductionHypothesis
        (fun other later => distinct other (List.mem_cons_of_mem point later))
      by_cases same : entry = point
      · subst same
        exact Or.inr (mem_ringInsert entry.1 entry.2 ring)
      · rcases member with listed | onRing
        · exact Or.inl ((List.mem_cons.mp listed).resolve_left same)
        · refine Or.inr (mem_ringInsert_of_ne onRing ?_)
          intro clash
          exact same (distinct point List.mem_cons_self clash.symm).symm

private theorem mem_of_mem_foldl_ringInsert
    {points ring : List (UInt64 × String)} {entry : UInt64 × String}
    (member : entry ∈ points.foldl
      (fun ring point => ringInsert point.1 point.2 ring) ring) :
    entry ∈ points ∨ entry ∈ ring := by
  induction points generalizing ring with
  | nil =>
      exact Or.inr member
  | cons point rest inductionHypothesis =>
      rw [List.foldl_cons] at member
      rcases inductionHypothesis member with later | onRing
      · exact Or.inl (List.mem_cons_of_mem point later)
      · rcases eq_or_mem_of_mem_ringInsert onRing with isPoint | old
        · exact Or.inl (List.mem_cons.mpr (Or.inl isPoint))
        · exact Or.inr old

/-- Without collisions the ring holds exactly the points of the nodes. -/
theorem mem_buildRing_iff {hash : String → UInt64} {nodes : List String}
    (noCollisions : NoLabelCollisions hash nodes)
    {point : UInt64 × String} :
    point ∈ buildRing hash nodes ↔ point ∈ ringPoints hash nodes := by
  rw [buildRing_eq]
  constructor
  · intro member
    exact (mem_of_mem_foldl_ringInsert member).resolve_right
      List.not_mem_nil
  · intro member
    apply mem_foldl_ringInsert ?_ (Or.inl member)
    intro other listed samePosition
    obtain ⟨otherNode, w, otherBound, otherPosition⟩ :=
      mem_ringPoints.mp listed
    obtain ⟨node, v, bound, position⟩ := mem_ringPoints.mp member
    have clash : hash (virtualLabel other.2 w) =
        hash (virtualLabel point.2 v) := by
      rw [← otherPosition, ← position, samePosition]
    have sameNode := (noCollisions other.2 otherNode point.2 node w
      otherBound v bound clash).1
    exact Prod.ext samePosition sameNode

end DynaRust.Network
