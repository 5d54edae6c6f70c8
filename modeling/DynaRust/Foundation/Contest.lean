import Mathlib.Data.List.Basic
import Mathlib.Data.List.Perm.Basic
import Mathlib.Data.Set.Basic

/-!
# Keeping the winner of a contest

A register holds at most one element.  An offered element fills an empty
register and replaces the held one exactly when it beats it.  Beating is
asymmetric but neither total nor transitive, so what is held after several
offers depends on their order in general; it does not when one element beats
all others.
-/

namespace DynaRust.Foundation

universe u v

/-- An asymmetric relation between elements of which one replaces the
other. -/
structure Contest (α : Type u) where
  beats : α → α → Bool
  asymm : ∀ first second, beats first second = true →
    beats second first = false

namespace Contest

variable {α : Type u} (contest : Contest α)

/-- What a register holds after an offer. -/
def offer : Option α → α → α
  | none, incoming => incoming
  | some existing, incoming =>
      if contest.beats incoming existing then incoming else existing

/-- What a register holds after the listed offers. -/
def offerAll : Option α → List α → Option α
  | held, [] => held
  | held, incoming :: rest => offerAll (some (contest.offer held incoming)) rest

/-- One of the members beats every other one. -/
structure IsWinner (members : Set α) (winner : α) : Prop where
  mem : winner ∈ members
  beats : ∀ other ∈ members, other ≠ winner →
    contest.beats winner other = true

@[simp]
theorem offer_none (incoming : α) : contest.offer none incoming = incoming :=
  rfl

theorem beats_irrefl (element : α) : contest.beats element element = false := by
  cases outcome : contest.beats element element with
  | false =>
      rfl
  | true =>
      exact absurd (contest.asymm element element outcome) (by simp [outcome])

theorem offer_of_beats {existing incoming : α}
    (wins : contest.beats incoming existing = true) :
    contest.offer (some existing) incoming = incoming := by
  simp [offer, wins]

theorem offer_of_not_beats {existing incoming : α}
    (loses : contest.beats incoming existing = false) :
    contest.offer (some existing) incoming = existing := by
  simp [offer, loses]

@[simp]
theorem offer_self (element : α) :
    contest.offer (some element) element = element :=
  contest.offer_of_not_beats (contest.beats_irrefl element)

/-- An offer made again changes nothing. -/
theorem offer_again (held : Option α) (incoming : α) :
    contest.offer (some (contest.offer held incoming)) incoming =
      contest.offer held incoming := by
  cases held with
  | none =>
      exact contest.offer_self incoming
  | some existing =>
      cases outcome : contest.beats incoming existing with
      | false =>
          rw [contest.offer_of_not_beats outcome,
            contest.offer_of_not_beats outcome]
      | true =>
          rw [contest.offer_of_beats outcome, contest.offer_self]

/-- The register holds the offered element or what it held before. -/
theorem offer_eq_or (held : Option α) (incoming : α) :
    contest.offer held incoming = incoming ∨
      held = some (contest.offer held incoming) := by
  cases held with
  | none =>
      exact Or.inl rfl
  | some existing =>
      cases outcome : contest.beats incoming existing with
      | false =>
          exact Or.inr (congrArg some (contest.offer_of_not_beats outcome).symm)
      | true =>
          exact Or.inl (contest.offer_of_beats outcome)

theorem offerAll_append (held : Option α) (first second : List α) :
    contest.offerAll held (first ++ second) =
      contest.offerAll (contest.offerAll held first) second := by
  induction first generalizing held with
  | nil =>
      rfl
  | cons incoming rest inductionHypothesis =>
      exact inductionHypothesis (some (contest.offer held incoming))

/-- After at least one offer the register is filled, from the offers or from
what it held. -/
theorem offerAll_mem (existing : α) (offers : List α) :
    ∃ final ∈ existing :: offers,
      contest.offerAll (some existing) offers = some final := by
  induction offers generalizing existing with
  | nil =>
      exact ⟨existing, by simp, rfl⟩
  | cons incoming rest inductionHypothesis =>
      obtain ⟨final, member, outcome⟩ :=
        inductionHypothesis (contest.offer (some existing) incoming)
      refine ⟨final, ?_, outcome⟩
      rcases List.mem_cons.mp member with rfl | later
      · rcases contest.offer_eq_or (some existing) incoming with same | same
        · rw [same]
          simp
        · rw [← Option.some.inj same]
          simp
      · simp [later]

theorem exists_offerAll_none {offers : List α} (nonempty : offers ≠ []) :
    ∃ final ∈ offers, contest.offerAll none offers = some final := by
  cases offers with
  | nil =>
      exact absurd rfl nonempty
  | cons first rest =>
      rw [offerAll, offer_none]
      exact contest.offerAll_mem first rest

/-- Offers that the held element refuses leave it in place. -/
theorem offerAll_refused {existing : α} {offers : List α}
    (refused : ∀ incoming ∈ offers,
      contest.beats incoming existing = false) :
    contest.offerAll (some existing) offers = some existing := by
  induction offers with
  | nil =>
      rfl
  | cons incoming rest inductionHypothesis =>
      rw [offerAll, contest.offer_of_not_beats (refused incoming (by simp))]
      exact inductionHypothesis fun other member =>
        refused other (by simp [member])

namespace IsWinner

variable {contest} {members : Set α} {winner : α}

/-- An offered winner is held. -/
theorem offer_winner (wins : contest.IsWinner members winner)
    {held : Option α} (among : ∀ existing, held = some existing →
      existing ∈ members) :
    contest.offer held winner = winner := by
  cases held with
  | none =>
      rfl
  | some existing =>
      by_cases same : existing = winner
      · subst same
        exact contest.offer_self existing
      · exact contest.offer_of_beats
          (wins.beats existing (among existing rfl) same)

theorem refuses (wins : contest.IsWinner members winner)
    {incoming : α} (member : incoming ∈ members) :
    contest.beats incoming winner = false := by
  by_cases same : incoming = winner
  · subst same
    exact contest.beats_irrefl incoming
  · exact contest.asymm winner incoming (wins.beats incoming member same)

/-- A held winner stays. -/
theorem offer_other (wins : contest.IsWinner members winner)
    {incoming : α} (member : incoming ∈ members) :
    contest.offer (some winner) incoming = winner :=
  contest.offer_of_not_beats (wins.refuses member)

/-- Once the winner has been among the offers, it is held. -/
theorem offerAll_eq (wins : contest.IsWinner members winner)
    {offers : List α} (offered : winner ∈ offers)
    (among : ∀ incoming ∈ offers, incoming ∈ members)
    {held : Option α} (heldAmong : ∀ existing, held = some existing →
      existing ∈ members) :
    contest.offerAll held offers = some winner := by
  induction offers generalizing held with
  | nil =>
      simp at offered
  | cons incoming rest inductionHypothesis =>
      have restAmong : ∀ other ∈ rest, other ∈ members :=
        fun other member => among other (by simp [member])
      rw [offerAll]
      by_cases same : incoming = winner
      · subst same
        rw [wins.offer_winner heldAmong]
        exact contest.offerAll_refused fun other member =>
          wins.refuses (restAmong other member)
      · have later : winner ∈ rest :=
          (List.mem_cons.mp offered).resolve_left (Ne.symm same)
        refine inductionHypothesis later restAmong ?_
        intro existing found
        rw [← Option.some.inj found]
        rcases contest.offer_eq_or held incoming with isNew | isOld
        · rw [isNew]
          exact among incoming (by simp)
        · exact heldAmong _ isOld

end IsWinner

theorem offerAll_ne_of_notMem {existing final : α} {offers : List α}
    (absent : final ∉ existing :: offers) :
    contest.offerAll (some existing) offers ≠ some final := by
  obtain ⟨result, member, outcome⟩ :=
    contest.offerAll_mem existing offers
  rw [outcome]
  intro equal
  rw [Option.some.inj equal] at member
  exact absent member

theorem offerAll_none_ne_of_notMem {offers : List α} {final : α}
    (absent : final ∉ offers) :
    contest.offerAll none offers ≠ some final := by
  cases offers with
  | nil =>
      simp [offerAll]
  | cons first rest =>
      rw [offerAll, offer_none]
      exact contest.offerAll_ne_of_notMem absent

theorem exists_unbeaten {offered : Set α} {final : α}
    (loses : ¬ contest.IsWinner offered final) (member : final ∈ offered) :
    ∃ other ∈ offered, other ≠ final ∧ contest.beats final other = false := by
  by_contra allBeaten
  push Not at allBeaten
  exact loses ⟨member, fun other among different =>
    Bool.eq_true_of_not_eq_false (allBeaten other among different)⟩

/-- Offers are labelled, and several labels may stand for one element.  If
`final` is not a winner, some order of all offers ends with another element:
start with one that `final` does not beat, then offer `final`, which is
refused. -/
theorem exists_order_avoiding [DecidableEq α] {β : Type v} (element : β → α)
    {offers : List β} {final : α}
    (loses : ¬ contest.IsWinner {offered | ∃ label ∈ offers,
      element label = offered} final) :
    ∃ order : List β, (∀ label, label ∈ order ↔ label ∈ offers) ∧
      contest.offerAll none (order.map element) ≠ some final := by
  by_cases offered : ∃ label ∈ offers, element label = final
  · obtain ⟨unbeatenElement, ⟨other, otherOffered, same⟩, different,
      unbeaten⟩ := contest.exists_unbeaten loses offered
    subst same
    let finals := offers.filter fun label => element label = final
    let rest := offers.filter fun label => element label ≠ final
    refine ⟨other :: (finals ++ rest), ?_, ?_⟩
    · intro label
      simp only [List.mem_cons, List.mem_append, finals, rest,
        List.mem_filter, decide_eq_true_eq, ne_eq]
      constructor
      · rintro (rfl | ⟨member, _⟩ | ⟨member, _⟩)
        · exact otherOffered
        · exact member
        · exact member
      · intro member
        by_cases isFinal : element label = final
        · exact Or.inr (Or.inl ⟨member, isFinal⟩)
        · exact Or.inr (Or.inr ⟨member, isFinal⟩)
    · have refused : contest.offerAll (some (element other))
          (finals.map element) = some (element other) := by
        apply contest.offerAll_refused
        intro incoming member
        obtain ⟨label, labelMember, rfl⟩ := List.mem_map.mp member
        simp only [finals, List.mem_filter, decide_eq_true_eq] at labelMember
        rw [labelMember.2]
        exact unbeaten
      rw [List.map_cons, List.map_append, offerAll, offer_none,
        offerAll_append, refused]
      apply contest.offerAll_ne_of_notMem
      simp only [List.mem_cons, List.mem_map, rest, List.mem_filter,
        decide_eq_true_eq, ne_eq, not_or]
      refine ⟨Ne.symm different, ?_⟩
      rintro ⟨label, ⟨_, notFinal⟩, isFinal⟩
      exact notFinal isFinal
  · refine ⟨offers, fun _ => Iff.rfl, ?_⟩
    apply contest.offerAll_none_ne_of_notMem
    intro member
    exact offered (List.mem_map.mp member)

/-- The same where every element is offered once: what `final` refuses to
replace comes first, then `final`, then the others. -/
theorem exists_perm_avoiding {offers : List α} {final : α}
    (distinct : offers.Nodup)
    (loses : ¬ contest.IsWinner {offered | offered ∈ offers} final) :
    ∃ order, order.Perm offers ∧ contest.offerAll none order ≠ some final := by
  classical
  by_cases offered : final ∈ offers
  · obtain ⟨other, otherOffered, different, unbeaten⟩ :=
      contest.exists_unbeaten loses offered
    have finalLeft : final ∈ offers.erase other :=
      (List.mem_erase_of_ne (Ne.symm different)).mpr offered
    let rest := (offers.erase other).erase final
    have restDistinct : (offers.erase other).Nodup := distinct.erase other
    refine ⟨other :: final :: rest, ?_, ?_⟩
    · have finalFirst : (final :: rest).Perm (offers.erase other) :=
        (List.perm_cons_erase finalLeft).symm
      exact (finalFirst.cons other).trans
        (List.perm_cons_erase otherOffered).symm
    · rw [offerAll, offer_none, offerAll, contest.offer_of_not_beats unbeaten]
      apply contest.offerAll_ne_of_notMem
      have notInRest : final ∉ rest :=
        List.Nodup.not_mem_erase restDistinct
      simp only [List.mem_cons, not_or]
      exact ⟨Ne.symm different, notInRest⟩
  · exact ⟨offers, List.Perm.refl offers,
      contest.offerAll_none_ne_of_notMem offered⟩

/-! ## Selecting from a list -/

/-- Keep an element only if it beats the next one. -/
def defend (kept next : α) : α :=
  if contest.beats kept next then kept else next

/-- If those of a group beat all elements outside of it, one of them is
selected. -/
theorem foldl_defend_mem {group : Set α} {first : α} {rest : List α}
    (prevails : ∀ member ∈ first :: rest, member ∈ group →
      ∀ other ∈ first :: rest, other ∉ group →
        contest.beats member other = true)
    (present : ∃ member ∈ first :: rest, member ∈ group) :
    rest.foldl contest.defend first ∈ group := by
  induction rest generalizing first with
  | nil =>
      obtain ⟨member, listed, inside⟩ := present
      rw [List.mem_singleton.mp listed] at inside
      exact inside
  | cons next rest inductionHypothesis =>
      have kept : contest.defend first next = first ∨
          contest.defend first next = next := by
        unfold defend
        split
        · exact Or.inl rfl
        · exact Or.inr rfl
      have listedBefore : ∀ element ∈ contest.defend first next :: rest,
          element ∈ first :: next :: rest := by
        intro element listed
        rcases List.mem_cons.mp listed with rfl | later
        · rcases kept with same | same
          · rw [same]
            exact List.mem_cons_self
          · rw [same]
            exact List.mem_cons_of_mem _ List.mem_cons_self
        · exact List.mem_cons_of_mem _ (List.mem_cons_of_mem _ later)
      apply inductionHypothesis
      · intro member listed inside other otherListed outside
        exact prevails member (listedBefore member listed) inside other
          (listedBefore other otherListed) outside
      · by_cases firstInside : first ∈ group
        · refine ⟨_, List.mem_cons_self, ?_⟩
          by_cases nextInside : next ∈ group
          · rcases kept with same | same
            · rw [same]
              exact firstInside
            · rw [same]
              exact nextInside
          · have wins := prevails first (by simp) firstInside next (by simp)
              nextInside
            rw [defend, if_pos wins]
            exact firstInside
        · by_cases nextInside : next ∈ group
          · refine ⟨_, List.mem_cons_self, ?_⟩
            have wins := prevails next (by simp) nextInside first (by simp)
              firstInside
            have loses := contest.asymm next first wins
            simpa [defend, loses] using nextInside
          · obtain ⟨member, listed, inside⟩ := present
            refine ⟨member, ?_, inside⟩
            rcases List.mem_cons.mp listed with rfl | later
            · exact absurd inside firstInside
            · rcases List.mem_cons.mp later with rfl | later
              · exact absurd inside nextInside
              · exact List.mem_cons_of_mem _ later

end Contest

end DynaRust.Foundation
