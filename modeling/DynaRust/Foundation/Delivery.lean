import DynaRust.Foundation.Runs
import Mathlib.Algebra.BigOperators.Group.List.Basic
import Mathlib.Algebra.GroupWithZero.Nat
import Mathlib.Algebra.Order.BigOperators.Group.List
import Mathlib.Logic.Function.Basic
import Mathlib.Order.WellFounded

/-!
# Requests with a budget of attempts

A sender repeats a request until it is answered or its attempts are used up.
The network may lose a copy or hand it over late, even to a receiver whose
sender has gone on.  Most senders hold a permit of their place while they are
at work, and a place has a fixed number of permits.
-/

namespace DynaRust.Foundation

universe u v

/-! ## One request -/

/-- Where its sender is; `permit` tells whether it holds one. -/
inductive Phase where
  | waiting
  | ready (permit : Bool)
  | sent (permit : Bool)
  | finished
  deriving DecidableEq

structure Parcel (ν : Type u) (μ : Type v) where
  origin : ν
  content : μ
  budget : Nat
  phase : Phase
  attempts : Nat
  /-- In the network. -/
  copies : Nat
  handled : Nat
  lost : Nat
  /-- Some copy was handled with success. -/
  accepted : Bool

inductive ParcelEvent where
  | acquire
  | send
  | handle (success : Bool)
  | lose
  | succeed
  | fail
  deriving DecidableEq

def ParcelEvent.isHandle : ParcelEvent → Bool
  | .handle _ => true
  | _ => false

def Phase.held : Phase → Nat
  | .ready true => 1
  | .sent true => 1
  | _ => 0

namespace Parcel

variable {ν : Type u} {μ : Type v}

/-- A request whose sender waits for a permit, or starts without one. -/
def fresh (origin : ν) (usesPermit : Bool) (budget : Nat) (content : μ) :
    Parcel ν μ where
  origin := origin
  content := content
  budget := budget
  phase := if usesPermit then .waiting else .ready false
  attempts := budget
  copies := 0
  handled := 0
  lost := 0
  accepted := false

def step (parcel : Parcel ν μ) : ParcelEvent → Option (Parcel ν μ)
  | .acquire =>
      match parcel.phase with
      | .waiting => some { parcel with phase := .ready true }
      | _ => none
  | .send =>
      match parcel.phase, parcel.attempts with
      | .ready permit, left + 1 =>
          some { parcel with
            phase := .sent permit
            attempts := left
            copies := parcel.copies + 1 }
      | _, _ => none
  | .handle success =>
      match parcel.copies with
      | others + 1 =>
          some { parcel with
            copies := others
            handled := parcel.handled + 1
            accepted := parcel.accepted || success }
      | 0 => none
  | .lose =>
      match parcel.copies with
      | others + 1 =>
          some { parcel with copies := others, lost := parcel.lost + 1 }
      | 0 => none
  | .succeed =>
      match parcel.phase, parcel.accepted with
      | .sent _, true => some { parcel with phase := .finished }
      | _, _ => none
  | .fail =>
      match parcel.phase with
      | .sent permit =>
          some { parcel with
            phase := if parcel.attempts = 0 then .finished
              else .ready permit }
      | _ => none

/-- The attempts are accounted for, the sender starts only with attempts left,
and it ends with an accepted copy or after the last attempt. -/
structure Sound (parcel : Parcel ν μ) : Prop where
  total : parcel.handled + parcel.lost + parcel.copies + parcel.attempts =
    parcel.budget
  left : parcel.phase = .waiting ∨ (∃ permit, parcel.phase = .ready permit) →
    0 < parcel.attempts
  ended : parcel.phase = .finished →
    parcel.accepted = true ∨ parcel.attempts = 0
  accepted : parcel.accepted = true → 0 < parcel.handled

theorem sound_fresh (origin : ν) (usesPermit : Bool) {budget : Nat}
    (positive : 0 < budget) (content : μ) :
    (fresh origin usesPermit budget content).Sound where
  total := by simp [fresh]
  left _ := positive
  ended isFinished := by
    cases usesPermit <;> cases isFinished
  accepted isAccepted := by cases isAccepted

/-- Nothing is left of a request only if it was handled, or lost in each of
its attempts. -/
theorem Sound.handled_or_lost {parcel : Parcel ν μ} (sound : parcel.Sound)
    (isFinished : parcel.phase = .finished) (none : parcel.copies = 0) :
    0 < parcel.handled ∨ parcel.lost = parcel.budget := by
  rcases sound.ended isFinished with isAccepted | noMore
  · exact .inl (sound.accepted isAccepted)
  · have total := sound.total
    omega

/-- Everything an event can do to a request. -/
inductive Moved (parcel : Parcel ν μ) : ParcelEvent → Parcel ν μ → Prop where
  | acquire : parcel.phase = .waiting →
      Moved parcel .acquire { parcel with phase := .ready true }
  | send (permit : Bool) (left : Nat) : parcel.phase = .ready permit →
      parcel.attempts = left + 1 →
      Moved parcel .send { parcel with
        phase := .sent permit
        attempts := left
        copies := parcel.copies + 1 }
  | handle (success : Bool) (others : Nat) : parcel.copies = others + 1 →
      Moved parcel (.handle success) { parcel with
        copies := others
        handled := parcel.handled + 1
        accepted := parcel.accepted || success }
  | lose (others : Nat) : parcel.copies = others + 1 →
      Moved parcel .lose
        { parcel with copies := others, lost := parcel.lost + 1 }
  | succeed (permit : Bool) : parcel.phase = .sent permit →
      parcel.accepted = true →
      Moved parcel .succeed { parcel with phase := .finished }
  | gaveUp (permit : Bool) : parcel.phase = .sent permit →
      parcel.attempts = 0 →
      Moved parcel .fail { parcel with phase := .finished }
  | tryAgain (permit : Bool) : parcel.phase = .sent permit →
      0 < parcel.attempts →
      Moved parcel .fail { parcel with phase := .ready permit }

theorem moved_of_step {parcel next : Parcel ν μ} {event : ParcelEvent}
    (taken : parcel.step event = some next) : parcel.Moved event next := by
  cases event with
  | acquire =>
      simp only [step] at taken
      split at taken
      · rename_i waits
        cases taken
        exact .acquire waits
      · cases taken
  | send =>
      simp only [step] at taken
      split at taken
      · rename_i permit left ready some
        cases taken
        exact .send permit left ready some
      · cases taken
  | handle success =>
      simp only [step] at taken
      split at taken
      · rename_i others some
        cases taken
        exact .handle success others some
      · cases taken
  | lose =>
      simp only [step] at taken
      split at taken
      · rename_i others some
        cases taken
        exact .lose others some
      · cases taken
  | succeed =>
      simp only [step] at taken
      split at taken
      · rename_i permit sent isAccepted
        cases taken
        exact .succeed permit sent isAccepted
      · cases taken
  | fail =>
      simp only [step] at taken
      split at taken
      · rename_i permit sent
        cases taken
        by_cases none : parcel.attempts = 0
        · rw [if_pos none]
          exact .gaveUp permit sent none
        · rw [if_neg none]
          exact .tryAgain permit sent (Nat.pos_of_ne_zero none)
      · cases taken

namespace Moved

variable {parcel next : Parcel ν μ} {event : ParcelEvent}

theorem origin (moved : parcel.Moved event next) :
    next.origin = parcel.origin := by
  cases moved <;> rfl

theorem content (moved : parcel.Moved event next) :
    next.content = parcel.content := by
  cases moved <;> rfl

theorem budget (moved : parcel.Moved event next) :
    next.budget = parcel.budget := by
  cases moved <;> rfl

theorem sound (moved : parcel.Moved event next) (sound : parcel.Sound) :
    next.Sound := by
  obtain ⟨total, left, ended, accepted⟩ := sound
  cases moved with
  | acquire waits =>
      exact ⟨total, fun _ => left (.inl waits), nofun, accepted⟩
  | send permit left' ready some =>
      refine ⟨?_, nofun, nofun, accepted⟩
      dsimp only
      omega
  | handle success others some =>
      refine ⟨?_, left, ?_, fun _ => Nat.succ_pos _⟩
      · dsimp only
        omega
      · intro isFinished
        rcases ended isFinished with isAccepted | none
        · exact .inl (by rw [isAccepted, Bool.true_or])
        · exact .inr none
  | lose others some =>
      refine ⟨?_, left, ended, accepted⟩
      dsimp only
      omega
  | succeed permit sent isAccepted =>
      exact ⟨total, nofun, fun _ => .inl isAccepted, accepted⟩
  | gaveUp permit sent none =>
      exact ⟨total, nofun, fun _ => .inr none, accepted⟩
  | tryAgain permit sent some =>
      exact ⟨total, fun _ => some, nofun, accepted⟩

/-- Only `acquire` takes a permit. -/
theorem held_le (moved : parcel.Moved event next) (other : event ≠ .acquire) :
    next.phase.held ≤ parcel.phase.held := by
  cases moved with
  | acquire waits =>
      exact absurd rfl other
  | send permit left ready some =>
      rw [ready]
      cases permit <;> exact le_rfl
  | handle success others some =>
      exact le_rfl
  | lose others some =>
      exact le_rfl
  | succeed permit sent isAccepted =>
      exact Nat.zero_le _
  | gaveUp permit sent none =>
      exact Nat.zero_le _
  | tryAgain permit sent some =>
      rw [sent]
      cases permit <;> exact le_rfl

theorem held_acquire (moved : parcel.Moved .acquire next) :
    next.phase.held = parcel.phase.held + 1 := by
  cases moved with
  | acquire waits =>
      rw [waits]
      rfl

end Moved

/-- What is still to be done for a request at most. -/
def weight (parcel : Parcel ν μ) : Nat :=
  1 + 4 * parcel.attempts + parcel.copies +
    match parcel.phase with
    | .waiting => 2
    | .ready _ => 1
    | .sent _ => 2
    | .finished => 0

theorem Moved.weight_lt {parcel next : Parcel ν μ} {event : ParcelEvent}
    (moved : parcel.Moved event next) : next.weight < parcel.weight := by
  cases moved with
  | acquire waits =>
      simp only [weight, waits]
      omega
  | send permit left ready some =>
      simp only [weight, ready, some]
      omega
  | handle success others some =>
      simp only [weight, some]
      omega
  | lose others some =>
      simp only [weight, some]
      omega
  | succeed permit sent isAccepted =>
      simp only [weight, sent]
      omega
  | gaveUp permit sent none =>
      simp only [weight, sent]
      omega
  | tryAgain permit sent some =>
      simp only [weight, sent]
      omega

/-- A request goes on, also when it is not handled, unless its sender waits for
a permit or it is done. -/
theorem exists_step {parcel : Parcel ν μ} (sound : parcel.Sound)
    (notWaiting : parcel.phase ≠ .waiting)
    (notDone : ¬ (parcel.phase = .finished ∧ parcel.copies = 0)) :
    ∃ event, event ≠ .acquire ∧ event.isHandle = false ∧
      (parcel.step event).isSome = true := by
  cases phase : parcel.phase with
  | waiting =>
      exact absurd phase notWaiting
  | ready permit =>
      have positive := sound.left (.inr ⟨permit, phase⟩)
      obtain ⟨left, some⟩ := Nat.exists_eq_succ_of_ne_zero positive.ne'
      exact ⟨.send, nofun, rfl, by simp [step, phase, some]⟩
  | sent permit =>
      exact ⟨.fail, nofun, rfl, by simp [step, phase]⟩
  | finished =>
      have inNetwork : parcel.copies ≠ 0 := fun none => notDone ⟨phase, none⟩
      obtain ⟨others, some⟩ := Nat.exists_eq_succ_of_ne_zero inNetwork
      exact ⟨.lose, nofun, rfl, by simp [step, some]⟩

end Parcel

/-! ## All requests -/

theorem exists_split_of_getElem? {α : Type u} {entries : List α}
    {index : Nat} {entry : α} (found : entries[index]? = some entry) :
    ∃ before after, entries = before ++ entry :: after ∧
      (∀ other, entries.set index other = before ++ other :: after) ∧
      entries.eraseIdx index = before ++ after := by
  obtain ⟨inside, rfl⟩ := List.getElem?_eq_some_iff.mp found
  refine ⟨entries.take index, entries.drop (index + 1), ?_, ?_, ?_⟩
  · rw [List.getElem_cons_drop, List.take_append_drop]
  · intro other
    exact List.set_eq_take_append_cons_drop.trans (if_pos inside)
  · exact List.eraseIdx_eq_take_drop_succ entries index

/-- The requests with their senders, the places of other tasks that hold a
permit, and the free permits of every place. -/
structure Outbox (ν : Type u) (μ : Type v) where
  parcels : List (Parcel ν μ)
  borrowers : List ν
  permits : ν → Nat

namespace Outbox

variable {ν : Type u} {μ : Type v} [DecidableEq ν]

/-- No requests, and all permits free. -/
def idle (capacity : Nat) : Outbox ν μ where
  parcels := []
  borrowers := []
  permits _ := capacity

def post (outbox : Outbox ν μ) (parcels : List (Parcel ν μ)) : Outbox ν μ :=
  { outbox with parcels := outbox.parcels ++ parcels }

/-- An event of one request; `acquire` needs a free permit. -/
def move (outbox : Outbox ν μ) (index : Nat) (event : ParcelEvent) :
    Option (Outbox ν μ) :=
  match outbox.parcels[index]? with
  | some parcel =>
      if event = .acquire ∧ outbox.permits parcel.origin = 0 then none
      else
        (parcel.step event).map fun next =>
          { outbox with
            parcels := outbox.parcels.set index next
            permits := Function.update outbox.permits parcel.origin
              (outbox.permits parcel.origin + parcel.phase.held -
                next.phase.held) }
  | none => none

/-- Nothing is left of a request. -/
def forget (outbox : Outbox ν μ) (index : Nat) : Option (Outbox ν μ) :=
  match outbox.parcels[index]? with
  | some parcel =>
      if parcel.phase = .finished ∧ parcel.copies = 0 then
        some { outbox with parcels := outbox.parcels.eraseIdx index }
      else none
  | none => none

/-- Another task takes a permit if one is free. -/
def borrow (outbox : Outbox ν μ) (place : ν) : Outbox ν μ :=
  if 0 < outbox.permits place then
    { outbox with
      borrowers := outbox.borrowers ++ [place]
      permits := Function.update outbox.permits place
        (outbox.permits place - 1) }
  else outbox

def giveBack (outbox : Outbox ν μ) (index : Nat) : Option (Outbox ν μ) :=
  match outbox.borrowers[index]? with
  | some place =>
      some { outbox with
        borrowers := outbox.borrowers.eraseIdx index
        permits := Function.update outbox.permits place
          (outbox.permits place + 1) }
  | none => none

/-! ### Permits -/

/-- How many permits of a place are held. -/
def held (outbox : Outbox ν μ) (place : ν) : Nat :=
  (outbox.parcels.map fun parcel =>
    if parcel.origin = place then parcel.phase.held else 0).sum +
      outbox.borrowers.count place

/-- The requests are sound, and every permit is free or held. -/
structure Balanced (capacity : Nat) (outbox : Outbox ν μ) : Prop where
  sound : ∀ parcel ∈ outbox.parcels, parcel.Sound
  permits : ∀ place, outbox.permits place + outbox.held place = capacity

variable {capacity : Nat} {outbox next : Outbox ν μ}

theorem balanced_idle (capacity : Nat) :
    (idle capacity : Outbox ν μ).Balanced capacity where
  sound := nofun
  permits _ := rfl

theorem Balanced.post {parcels : List (Parcel ν μ)}
    (sound : ∀ parcel ∈ parcels, parcel.Sound ∧ parcel.phase.held = 0)
    (balanced : outbox.Balanced capacity) :
    (outbox.post parcels).Balanced capacity where
  sound parcel member := by
    rcases List.mem_append.mp member with before | posted
    · exact balanced.sound parcel before
    · exact (sound parcel posted).1
  permits place := by
    have none : (parcels.map fun parcel =>
        if parcel.origin = place then parcel.phase.held else 0).sum = 0 := by
      refine List.sum_eq_zero ?_
      intro count member
      obtain ⟨parcel, posted, rfl⟩ := List.mem_map.mp member
      rw [(sound parcel posted).2, ite_self]
    have before := balanced.permits place
    simp only [Outbox.post, held, List.map_append, List.sum_append, none,
      Nat.add_zero] at before ⊢
    exact before

theorem move_eq_some {index : Nat} {event : ParcelEvent} :
    outbox.move index event = some next ↔
      ∃ parcel parcel', outbox.parcels[index]? = some parcel ∧
        ¬ (event = .acquire ∧ outbox.permits parcel.origin = 0) ∧
        parcel.step event = some parcel' ∧
        next = { outbox with
          parcels := outbox.parcels.set index parcel'
          permits := Function.update outbox.permits parcel.origin
            (outbox.permits parcel.origin + parcel.phase.held -
              parcel'.phase.held) } := by
  rw [move]
  cases found : outbox.parcels[index]? with
  | none =>
      simp
  | some parcel =>
      by_cases blocked : event = .acquire ∧ outbox.permits parcel.origin = 0
      · simp [blocked]
      · simp only [if_neg blocked, Option.map_eq_some_iff]
        constructor
        · rintro ⟨parcel', taken, rfl⟩
          exact ⟨parcel, parcel', rfl, blocked, taken, rfl⟩
        · rintro ⟨_, parcel', same, -, taken, rfl⟩
          cases same
          exact ⟨parcel', taken, rfl⟩

theorem Balanced.move {index : Nat} {event : ParcelEvent}
    (taken : outbox.move index event = some next)
    (balanced : outbox.Balanced capacity) : next.Balanced capacity := by
  obtain ⟨parcel, parcel', found, free, stepped, rfl⟩ := move_eq_some.mp taken
  have moved := Parcel.moved_of_step stepped
  have member := List.mem_of_getElem? found
  constructor
  · intro other inside
    rcases List.mem_or_eq_of_mem_set inside with before | rfl
    · exact balanced.sound other before
    · exact moved.sound (balanced.sound parcel member)
  · intro place
    have before := balanced.permits place
    obtain ⟨front, back, split, set, -⟩ := exists_split_of_getElem? found
    simp only [held, set]
    rw [held, split] at before
    simp only [List.map_append, List.map_cons, List.sum_append,
      List.sum_cons, moved.origin] at before ⊢
    by_cases here : parcel.origin = place
    · subst here
      rw [Function.update_self]
      simp only [if_true] at before ⊢
      by_cases acquires : event = .acquire
      · subst acquires
        have one := moved.held_acquire
        have some : outbox.permits parcel.origin ≠ 0 :=
          fun none => free ⟨rfl, none⟩
        omega
      · have fewer := moved.held_le acquires
        omega
    · rw [Function.update_of_ne (Ne.symm here)]
      simp only [if_neg here] at before ⊢
      exact before

theorem Balanced.forget {index : Nat}
    (taken : outbox.forget index = some next)
    (balanced : outbox.Balanced capacity) : next.Balanced capacity := by
  rw [Outbox.forget] at taken
  split at taken
  · rename_i parcel found
    split at taken
    · rename_i isDone
      cases taken
      constructor
      · intro other inside
        exact balanced.sound other (List.mem_of_mem_eraseIdx inside)
      · intro place
        have before := balanced.permits place
        obtain ⟨front, back, split, -, erased⟩ :=
          exists_split_of_getElem? found
        rw [held, split] at before
        simp only [held, erased]
        simp only [List.map_append, List.map_cons, List.sum_append,
          List.sum_cons, isDone.1, Phase.held, ite_self,
          Nat.zero_add] at before ⊢
        exact before
    · cases taken
  · cases taken

theorem Balanced.borrow (place : ν) (balanced : outbox.Balanced capacity) :
    (outbox.borrow place).Balanced capacity := by
  rw [Outbox.borrow]
  by_cases free : 0 < outbox.permits place
  · rw [if_pos free]
    refine ⟨balanced.sound, ?_⟩
    intro other
    have before := balanced.permits other
    simp only [held, List.count_append] at before ⊢
    by_cases here : other = place
    · subst here
      rw [Function.update_self, List.count_singleton_self]
      omega
    · rw [Function.update_of_ne here, List.count_singleton,
        if_neg (by simpa using Ne.symm here)]
      exact before
  · rw [if_neg free]
    exact balanced

theorem Balanced.giveBack {index : Nat}
    (taken : outbox.giveBack index = some next)
    (balanced : outbox.Balanced capacity) : next.Balanced capacity := by
  rw [Outbox.giveBack] at taken
  split at taken
  · rename_i place found
    cases taken
    refine ⟨balanced.sound, ?_⟩
    intro other
    have before := balanced.permits other
    obtain ⟨front, back, split, -, erased⟩ := exists_split_of_getElem? found
    rw [held, split] at before
    simp only [held, erased]
    rw [List.count_append, List.count_cons] at before
    rw [List.count_append]
    by_cases here : other = place
    · subst here
      rw [Function.update_self]
      simp only [beq_self_eq_true, if_true] at before
      omega
    · rw [Function.update_of_ne here]
      rw [if_neg (by simpa using Ne.symm here)] at before
      exact before
  · cases taken

/-! ### Running dry -/

/-- No request is left, and nobody holds a permit. -/
def Empty (outbox : Outbox ν μ) : Prop :=
  outbox.parcels = [] ∧ outbox.borrowers = []

/-- What happens when nothing is posted or borrowed. -/
inductive Works (outbox next : Outbox ν μ) : Prop where
  | move (index : Nat) (event : ParcelEvent) :
      outbox.move index event = some next → Works outbox next
  | forget (index : Nat) : outbox.forget index = some next →
      Works outbox next
  | giveBack (index : Nat) : outbox.giveBack index = some next →
      Works outbox next

def weight (outbox : Outbox ν μ) : Nat :=
  (outbox.parcels.map Parcel.weight).sum + outbox.borrowers.length

theorem Works.weight_lt (works : outbox.Works next) :
    next.weight < outbox.weight := by
  cases works with
  | move index event taken =>
      obtain ⟨parcel, parcel', found, -, stepped, rfl⟩ :=
        move_eq_some.mp taken
      have less := (Parcel.moved_of_step stepped).weight_lt
      obtain ⟨front, back, split, set, -⟩ := exists_split_of_getElem? found
      simp only [weight, set]
      rw [split]
      simp only [List.map_append, List.map_cons, List.sum_append,
        List.sum_cons]
      omega
  | forget index taken =>
      rw [Outbox.forget] at taken
      split at taken
      · rename_i parcel found
        split at taken
        · cases taken
          obtain ⟨front, back, split, -, erased⟩ :=
            exists_split_of_getElem? found
          have some : 0 < parcel.weight := by
            unfold Parcel.weight
            omega
          simp only [weight, erased]
          rw [split]
          simp only [List.map_append, List.map_cons, List.sum_append,
            List.sum_cons]
          omega
        · cases taken
      · cases taken
  | giveBack index taken =>
      rw [Outbox.giveBack] at taken
      split at taken
      · rename_i place found
        cases taken
        obtain ⟨front, back, split, -, erased⟩ :=
          exists_split_of_getElem? found
        simp only [weight, erased]
        rw [split, List.length_append, List.length_append, List.length_cons]
        omega
      · cases taken

/-- Who holds a permit is not waiting and not done. -/
private theorem exists_holder {outbox : Outbox ν μ} {place : ν}
    (holds : 0 < outbox.held place) (none : outbox.borrowers = []) :
    ∃ (index : Nat) (parcel : Parcel ν μ),
      outbox.parcels[index]? = some parcel ∧ 0 < parcel.phase.held := by
  rw [held, none, List.count_nil, Nat.add_zero] at holds
  by_contra nobody
  refine holds.ne' (List.sum_eq_zero ?_)
  intro count member
  obtain ⟨parcel, inside, rfl⟩ := List.mem_map.mp member
  obtain ⟨index, found⟩ := List.mem_iff_getElem?.mp inside
  have free : parcel.phase.held = 0 :=
    Nat.eq_zero_of_not_pos fun some => nobody ⟨index, parcel, found, some⟩
  rw [free, ite_self]

/-- Something can go on that is not the handling of a request. -/
def Busy (outbox : Outbox ν μ) : Prop :=
  (∃ index event, event.isHandle = false ∧
    (outbox.move index event).isSome = true) ∨
  (∃ index, (outbox.forget index).isSome = true) ∨
  ∃ index, (outbox.giveBack index).isSome = true

private theorem busy_of_parcel {index : Nat} {parcel : Parcel ν μ}
    (balanced : outbox.Balanced capacity)
    (found : outbox.parcels[index]? = some parcel)
    (notWaiting : parcel.phase ≠ .waiting) : outbox.Busy := by
  by_cases isDone : parcel.phase = .finished ∧ parcel.copies = 0
  · refine .inr (.inl ⟨index, ?_⟩)
    simp [Outbox.forget, found, isDone]
  · have sound := balanced.sound parcel (List.mem_of_getElem? found)
    obtain ⟨event, other, notHandle, enabled⟩ :=
      Parcel.exists_step sound notWaiting isDone
    obtain ⟨parcel', stepped⟩ := Option.isSome_iff_exists.mp enabled
    have moves := move_eq_some.mpr ⟨parcel, parcel', found,
      fun blocked => other blocked.1, stepped, rfl⟩
    exact .inl ⟨index, event, notHandle,
      Option.isSome_iff_exists.mpr ⟨_, moves⟩⟩

/-- As long as something is left, something can go on: who waits for a permit
waits for a sender that is at work. -/
theorem busy_of_not_empty (positive : 0 < capacity)
    (balanced : outbox.Balanced capacity) (notEmpty : ¬ outbox.Empty) :
    outbox.Busy := by
  cases borrowed : outbox.borrowers with
  | cons place rest =>
      refine .inr (.inr ⟨0, ?_⟩)
      simp [Outbox.giveBack, borrowed]
  | nil =>
      cases posted : outbox.parcels with
      | nil =>
          exact absurd ⟨posted, borrowed⟩ notEmpty
      | cons parcel rest =>
          have found : outbox.parcels[0]? = some parcel := by
            rw [posted]
            rfl
          by_cases waits : parcel.phase = .waiting
          · by_cases free : outbox.permits parcel.origin = 0
            · have busy : 0 < outbox.held parcel.origin := by
                have all := balanced.permits parcel.origin
                omega
              obtain ⟨index, holder, there, holds⟩ :=
                exists_holder busy borrowed
              refine busy_of_parcel balanced there ?_
              intro waiting
              rw [waiting] at holds
              exact absurd holds (Nat.lt_irrefl 0)
            · have stepped : parcel.step .acquire =
                  some { parcel with phase := .ready true } := by
                simp only [Parcel.step, waits]
              have moves := move_eq_some.mpr ⟨parcel, _, found,
                fun blocked => free blocked.2, stepped, rfl⟩
              exact .inl ⟨0, .acquire, rfl,
                Option.isSome_iff_exists.mpr ⟨_, moves⟩⟩
          · exact busy_of_parcel balanced found waits

/-- With nothing left all permits are free. -/
theorem Balanced.permits_of_empty (balanced : outbox.Balanced capacity)
    (empty : outbox.Empty) (place : ν) : outbox.permits place = capacity := by
  have all := balanced.permits place
  rw [held, empty.1, empty.2] at all
  exact all

end Outbox

end DynaRust.Foundation
