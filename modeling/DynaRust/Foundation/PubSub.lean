import Mathlib.Data.List.Basic

/-!
# What a publish-subscribe service is for

A board of subscriptions, in the order in which they were opened.  Everybody
who is subscribed to a topic receives what is published on it; a place whose
subscriber has left stays empty.
-/

namespace DynaRust.Foundation

universe u v

/-- A subscriber's topic and what it has received so far, oldest first. -/
structure Subscription (τ : Type u) (α : Type v) where
  topic : τ
  received : List α

/-- The subscriptions of everybody who has not left. -/
abbrev Board (τ : Type u) (α : Type v) := List (Option (Subscription τ α))

/-- What happens at a board. -/
inductive Activity (τ : Type u) (α : Type v) where
  | subscribe (topic : τ)
  | publish (topic : τ) (event : α)
  | leave (place : Nat)
  | idle

variable {τ : Type u} {α : Type v} [DecidableEq τ]

/-- What a subscriber of the topic gets of one activity. -/
def Activity.deliveredTo (topic : τ) : Activity τ α → List α
  | .publish published event => if published = topic then [event] else []
  | _ => []

/-- What is published on the topic, in this order. -/
def published (topic : τ) (activities : List (Activity τ α)) : List α :=
  activities.flatMap (Activity.deliveredTo topic)

theorem published_cons (topic : τ) (activity : Activity τ α)
    (rest : List (Activity τ α)) :
    published topic (activity :: rest) =
      activity.deliveredTo topic ++ published topic rest :=
  List.flatMap_cons

def Subscription.receive (subscription : Subscription τ α)
    (activity : Activity τ α) : Subscription τ α :=
  { subscription with
    received := subscription.received ++
      activity.deliveredTo subscription.topic }

theorem Subscription.receive_of_deliveredTo_eq_nil
    {subscription : Subscription τ α} {activity : Activity τ α}
    (nothing : activity.deliveredTo subscription.topic = []) :
    subscription.receive activity = subscription := by
  rw [receive, nothing, List.append_nil]

/-- The board after one activity. -/
def Board.next (board : Board τ α) : Activity τ α → Board τ α
  | .subscribe topic => board ++ [some ⟨topic, []⟩]
  | .publish topic event =>
      board.map (Option.map (Subscription.receive · (.publish topic event)))
  | .leave place => board.set place none
  | .idle => board

theorem Board.next_of_empty {board : Board τ α} {place : Nat}
    (empty : board[place]? = some none) (activity : Activity τ α) :
    (board.next activity)[place]? = some none := by
  have inside : place < board.length :=
    (List.getElem?_eq_some_iff.mp empty).1
  cases activity with
  | subscribe topic =>
      rw [next, List.getElem?_append_left inside, empty]
  | publish topic event =>
      rw [next, List.getElem?_map, empty]
      rfl
  | leave left =>
      by_cases same : left = place
      · subst same
        rw [next, List.getElem?_set_self inside]
      · rw [next, List.getElem?_set_ne same, empty]
  | idle =>
      exact empty

theorem Board.next_of_taken {board : Board τ α} {place : Nat}
    {subscription : Subscription τ α}
    (taken : board[place]? = some (some subscription))
    (activity : Activity τ α) :
    (board.next activity)[place]? = some none ∨
      (board.next activity)[place]? =
        some (some (subscription.receive activity)) := by
  have inside : place < board.length :=
    (List.getElem?_eq_some_iff.mp taken).1
  cases activity with
  | subscribe topic =>
      right
      rw [next, List.getElem?_append_left inside, taken]
      rw [Subscription.receive_of_deliveredTo_eq_nil rfl]
  | publish topic event =>
      right
      rw [next, List.getElem?_map, taken]
      rfl
  | leave left =>
      by_cases same : left = place
      · left
        subst same
        rw [next, List.getElem?_set_self inside]
      · right
        rw [next, List.getElem?_set_ne same, taken]
        rw [Subscription.receive_of_deliveredTo_eq_nil rfl]
  | idle =>
      right
      rw [next, taken, Subscription.receive_of_deliveredTo_eq_nil rfl]

theorem Board.empty_forever {board : Board τ α} {place : Nat}
    (empty : board[place]? = some none)
    (activities : List (Activity τ α)) :
    (activities.foldl Board.next board)[place]? = some none := by
  induction activities generalizing board with
  | nil =>
      exact empty
  | cons activity rest inductionHypothesis =>
      exact inductionHypothesis (next_of_empty empty activity)

/-- Who is still there has received exactly what was published since. -/
theorem Board.received_since {board : Board τ α} {place : Nat}
    {before after : Subscription τ α}
    (opened : board[place]? = some (some before))
    {activities : List (Activity τ α)}
    (there : (activities.foldl Board.next board)[place]? =
      some (some after)) :
    after.topic = before.topic ∧
      after.received =
        before.received ++ published before.topic activities := by
  induction activities generalizing board before with
  | nil =>
      have same : before = after :=
        Option.some.inj (Option.some.inj (opened.symm.trans there))
      rw [same]
      exact ⟨rfl, (List.append_nil _).symm⟩
  | cons activity rest inductionHypothesis =>
      rcases next_of_taken opened activity with left | stayed
      · rw [List.foldl_cons, empty_forever left rest] at there
        cases there
      · obtain ⟨topic, received⟩ := inductionHypothesis stayed there
        refine ⟨topic, ?_⟩
        rw [received, published_cons]
        exact List.append_assoc _ _ _

end DynaRust.Foundation
