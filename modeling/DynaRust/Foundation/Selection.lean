import DynaRust.Foundation.Contest
import Mathlib.Logic.Relation

/-!
# Which element a linear selection can keep

A list is read from left to right, and the element kept so far stays only if
it beats the next one.  Beating need not be transitive, so the element kept at
the end depends on the order of the list.  Over all orders it is exactly one
of those that every other element leads to.
-/

namespace DynaRust.Foundation

universe u

namespace Contest

variable {α : Type u} (contest : Contest α)

/-- The element kept at the end. -/
def select : List α → Option α
  | [] => none
  | first :: rest => some (rest.foldl contest.defend first)

theorem defend_of_beats {kept next : α}
    (wins : contest.beats kept next = true) :
    contest.defend kept next = kept := by
  simp [defend, wins]

theorem defend_of_not_beats {kept next : α}
    (loses : contest.beats kept next = false) :
    contest.defend kept next = next := by
  simp [defend, loses]

theorem foldl_defend_listed (first : α) (rest : List α) :
    rest.foldl contest.defend first ∈ first :: rest := by
  induction rest generalizing first with
  | nil =>
      exact List.mem_cons_self
  | cons next rest inductionHypothesis =>
      rw [List.foldl_cons]
      have listed := inductionHypothesis (contest.defend first next)
      rcases List.mem_cons.mp listed with same | later
      · rw [same]
        cases outcome : contest.beats first next with
        | true =>
            rw [contest.defend_of_beats outcome]
            exact List.mem_cons_self
        | false =>
            rw [contest.defend_of_not_beats outcome]
            exact List.mem_cons_of_mem first List.mem_cons_self
      · exact List.mem_cons_of_mem first (List.mem_cons_of_mem next later)

theorem mem_of_select {members : List α} {final : α}
    (selected : contest.select members = some final) : final ∈ members := by
  cases members with
  | nil =>
      cases selected
  | cons first rest =>
      rw [← Option.some.inj selected]
      exact contest.foldl_defend_listed first rest

/-- Offered right after `kept`, the member `next` takes its place. -/
def Yields (members : List α) (kept next : α) : Prop :=
  next ∈ members ∧ contest.beats kept next = false

/-- A chain of members, each yielding to the next. -/
def Leads (members : List α) : α → α → Prop :=
  Relation.ReflTransGen (contest.Yields members)

/-! ## Everything leads to the kept element -/

theorem leads_foldl_defend {members : List α} (first : α) (rest : List α)
    (among : ∀ element ∈ first :: rest, element ∈ members) :
    ∀ element ∈ first :: rest,
      contest.Leads members element (rest.foldl contest.defend first) := by
  induction rest generalizing first with
  | nil =>
      intro element listed
      rw [List.mem_singleton.mp listed]
      exact Relation.ReflTransGen.refl
  | cons next rest inductionHypothesis =>
      have firstMember : first ∈ members := among first (by simp)
      have nextMember : next ∈ members := among next (by simp)
      have restMember : ∀ element ∈ rest, element ∈ members :=
        fun element later => among element (by simp [later])
      rw [List.foldl_cons]
      cases outcome : contest.beats first next with
      | true =>
          rw [contest.defend_of_beats outcome]
          have onward := inductionHypothesis first <| by
            intro element listed
            rcases List.mem_cons.mp listed with same | later
            · rw [same]
              exact firstMember
            · exact restMember element later
          have yields : contest.Yields members next first :=
            ⟨firstMember, contest.asymm first next outcome⟩
          intro element listed
          rcases List.mem_cons.mp listed with same | later
          · rw [same]
            exact onward first List.mem_cons_self
          · rcases List.mem_cons.mp later with same | later
            · rw [same]
              exact Relation.ReflTransGen.head yields
                (onward first List.mem_cons_self)
            · exact onward element (List.mem_cons_of_mem first later)
      | false =>
          rw [contest.defend_of_not_beats outcome]
          have onward := inductionHypothesis next <| by
            intro element listed
            rcases List.mem_cons.mp listed with same | later
            · rw [same]
              exact nextMember
            · exact restMember element later
          have yields : contest.Yields members first next :=
            ⟨nextMember, outcome⟩
          intro element listed
          rcases List.mem_cons.mp listed with same | later
          · rw [same]
            exact Relation.ReflTransGen.head yields
              (onward next List.mem_cons_self)
          · exact onward element later

/-! ## An order for every element that all others lead to -/

/-- A list in which every element but the last yields to a later one. -/
inductive LineTo (final : α) : List α → Prop
  | last : LineTo final [final]
  | cons {kept next : α} {rest : List α} :
      LineTo final rest → next ∈ rest →
      contest.beats kept next = false → LineTo final (kept :: rest)

namespace LineTo

variable {contest} {final : α}

theorem final_mem {line : List α} (ends : contest.LineTo final line) :
    final ∈ line := by
  cases ends with
  | last =>
      exact List.mem_singleton_self final
  | cons rest member _ =>
      exact List.mem_cons_of_mem _ (final_mem rest)

/-- Whoever is kept when its successor comes is replaced by it. -/
theorem foldl_defend {line : List α} (ends : contest.LineTo final line)
    {kept next : α} (member : next ∈ line)
    (yields : contest.beats kept next = false) :
    line.foldl contest.defend kept = final := by
  induction ends generalizing kept next with
  | last =>
      rw [List.mem_singleton.mp member] at yields
      exact contest.defend_of_not_beats yields
  | @cons head successor rest _ successorMember successorYields
      inductionHypothesis =>
      rw [List.foldl_cons]
      cases outcome : contest.beats kept head with
      | true =>
          rw [contest.defend_of_beats outcome]
          have notHead : next ≠ head := by
            intro same
            rw [same, outcome] at yields
            cases yields
          have later : next ∈ rest :=
            (List.mem_cons.mp member).resolve_left notHead
          exact inductionHypothesis later yields
      | false =>
          rw [contest.defend_of_not_beats outcome]
          exact inductionHypothesis successorMember successorYields

theorem select_eq {line : List α} (ends : contest.LineTo final line) :
    contest.select line = some final := by
  cases ends with
  | last =>
      rfl
  | cons rest member yields =>
      exact congrArg some (rest.foldl_defend member yields)

end LineTo

/-- On the way to a placed element, some element that is not placed yet
yields to a placed one. -/
private theorem exists_yielding {members placed waiting : List α}
    (split : ∀ element, element ∈ members ↔
      element ∈ placed ∨ element ∈ waiting)
    {start final : α} (leads : contest.Leads members start final)
    (starts : start ∈ waiting) (ends : final ∈ placed) :
    ∃ kept ∈ waiting, ∃ next ∈ placed, contest.beats kept next = false := by
  induction leads using Relation.ReflTransGen.head_induction_on with
  | refl =>
      exact ⟨final, starts, final, ends, contest.beats_irrefl final⟩
  | @head kept next yields _ inductionHypothesis =>
      rcases (split next).mp yields.1 with isPlaced | isWaiting
      · exact ⟨kept, starts, next, isPlaced, yields.2⟩
      · exact inductionHypothesis isWaiting

private theorem exists_line {members : List α} {final : α}
    (leads : ∀ element ∈ members, contest.Leads members element final)
    (waiting placed : List α) (line : contest.LineTo final placed)
    (split : (waiting ++ placed).Perm members) :
    ∃ order, order.Perm members ∧ contest.LineTo final order := by
  induction size : waiting.length generalizing waiting placed with
  | zero =>
      rw [List.length_eq_zero_iff.mp size, List.nil_append] at split
      exact ⟨placed, split, line⟩
  | succ count inductionHypothesis =>
      have inhabited : waiting ≠ [] := by
        intro empty
        rw [empty] at size
        cases size
      obtain ⟨start, starts⟩ := List.exists_mem_of_ne_nil waiting inhabited
      have startMember : start ∈ members :=
        split.mem_iff.mp (List.mem_append_left placed starts)
      have bothSides : ∀ element, element ∈ members ↔
          element ∈ placed ∨ element ∈ waiting := by
        intro element
        rw [← split.mem_iff, List.mem_append, or_comm]
      obtain ⟨kept, keptWaits, next, nextPlaced, yields⟩ :=
        contest.exists_yielding bothSides (leads start startMember) starts
          line.final_mem
      obtain ⟨before, after, cut⟩ := List.append_of_mem keptWaits
      have moved : (before ++ after ++ (kept :: placed)).Perm
          (waiting ++ placed) := by
        rw [cut]
        have toFront : (before ++ kept :: after).Perm
            (kept :: (before ++ after)) := List.perm_middle
        have inPlace : (before ++ after ++ kept :: placed).Perm
            (kept :: (before ++ after) ++ placed) := List.perm_middle
        exact inPlace.trans (toFront.symm.append_right placed)
      apply inductionHypothesis (before ++ after) (kept :: placed)
      · exact LineTo.cons line nextPlaced yields
      · exact moved.trans split
      · rw [cut] at size
        simp only [List.length_append, List.length_cons] at size ⊢
        omega

/-- What all members lead to is selected in some order of them. -/
theorem exists_order_selecting {members : List α} {final : α}
    (member : final ∈ members)
    (leads : ∀ element ∈ members, contest.Leads members element final) :
    ∃ order, order.Perm members ∧ contest.select order = some final := by
  obtain ⟨before, after, cut⟩ := List.append_of_mem member
  have split : (before ++ after ++ [final]).Perm members := by
    rw [cut, List.append_assoc]
    exact List.Perm.append_left before
      (List.perm_append_singleton final after)
  obtain ⟨order, permutes, line⟩ :=
    contest.exists_line leads (before ++ after) [final] LineTo.last split
  exact ⟨order, permutes, line.select_eq⟩

/-! ## Groups that beat everything else -/

/-- Each member of the group beats each member outside of it. -/
structure Prevails (members : List α) (group : Set α) : Prop where
  present : ∃ member ∈ members, member ∈ group
  beats : ∀ member ∈ members, member ∈ group →
    ∀ other ∈ members, other ∉ group → contest.beats member other = true

/-- The selected element comes from every group that prevails. -/
theorem Prevails.select_mem {contest : Contest α} {members : List α}
    {group : Set α} (prevails : contest.Prevails members group)
    {order : List α} (permutes : order.Perm members) {final : α}
    (selected : contest.select order = some final) : final ∈ group := by
  cases order with
  | nil =>
      cases selected
  | cons first rest =>
      rw [← Option.some.inj selected]
      obtain ⟨member, listed, inside⟩ := prevails.present
      apply contest.foldl_defend_mem
      · intro member listed inside other otherListed outside
        exact prevails.beats member (permutes.mem_iff.mp listed) inside
          other (permutes.mem_iff.mp otherListed) outside
      · exact ⟨member, permutes.mem_iff.mpr listed, inside⟩

/-- The members that all members lead to prevail over the others. -/
theorem prevails_finals {members : List α} (inhabited : members ≠ []) :
    contest.Prevails members {final |
      ∀ element ∈ members, contest.Leads members element final} where
  present := by
    cases members with
    | nil =>
        exact absurd rfl inhabited
    | cons first rest =>
        have leads := contest.leads_foldl_defend first rest
          fun element listed => listed
        exact ⟨_, contest.foldl_defend_listed first rest, leads⟩
  beats := by
    intro member listed inside other otherListed outside
    by_contra loses
    have yields : contest.Yields members member other :=
      ⟨otherListed, Bool.eq_false_of_not_eq_true loses⟩
    exact outside fun element elementListed =>
      (inside element elementListed).tail yields

/-- Every order of the members selects one with the property exactly if a
group of such members prevails. -/
theorem every_order_selects_iff {members : List α}
    (inhabited : members ≠ []) (property : α → Prop) :
    (∀ order, order.Perm members → ∀ final,
        contest.select order = some final → property final) ↔
      ∃ group, contest.Prevails members group ∧
        ∀ member ∈ members, member ∈ group → property member := by
  constructor
  · intro always
    refine ⟨_, contest.prevails_finals inhabited, ?_⟩
    intro member listed leads
    obtain ⟨order, permutes, selected⟩ :=
      contest.exists_order_selecting listed leads
    exact always order permutes member selected
  · intro ⟨group, prevails, holds⟩ order permutes final selected
    have listed : final ∈ order := contest.mem_of_select selected
    exact holds final (permutes.mem_iff.mp listed)
      (prevails.select_mem permutes selected)

end Contest

end DynaRust.Foundation
