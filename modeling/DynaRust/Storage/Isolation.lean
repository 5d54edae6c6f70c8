import DynaRust.Foundation.Text
import DynaRust.Storage.Subscription

/-!
# Whose events a subscriber gets

The channels of all records share one map, keyed by table and key joined with
a slash.  Both parts of a path may contain slashes, so two records share a
channel if one is the other with a part moved across the joint.
-/

namespace DynaRust.Storage

open DynaRust.Foundation DynaRust.Network

/-- The pair `table'`, `key'` is `table`, `key` with a part of the key moved
to the end of the table name. -/
def SlashMoved (table key table' key' : String) : Prop :=
  ∃ middle, table' = table ++ "/" ++ middle ∧ key = middle ++ "/" ++ key'

private theorem toList_slash (first second : String) :
    (first ++ "/" ++ second).toList =
      first.toList ++ '/' :: second.toList := by
  rw [String.toList_append, String.toList_append, List.append_assoc]
  rfl

private theorem slashMoved_iff (table key table' key' : String) :
    SlashMoved table key table' key' ↔
      ∃ middle, table'.toList = table.toList ++ '/' :: middle ∧
        key.toList = middle ++ '/' :: key'.toList := by
  constructor
  · intro ⟨middle, longer, shorter⟩
    refine ⟨middle.toList, ?_, ?_⟩
    · rw [longer, toList_slash]
    · rw [shorter, toList_slash]
  · intro ⟨middle, longer, shorter⟩
    refine ⟨String.ofList middle, ?_, ?_⟩
    · rw [← String.toList_inj, toList_slash, String.toList_ofList, longer]
    · rw [← String.toList_inj, toList_slash, String.toList_ofList, shorter]

theorem SlashMoved.table_ne {table key table' key' : String}
    (moved : SlashMoved table key table' key') : table' ≠ table := by
  obtain ⟨middle, longer, _⟩ := (slashMoved_iff _ _ _ _).mp moved
  intro same
  rw [same] at longer
  have lengths := congrArg List.length longer
  rw [List.length_append, List.length_cons] at lengths
  omega

/-- Two records share a channel exactly in these cases. -/
theorem channelIdentifier_eq_iff (table key table' key' : String) :
    channelIdentifier table' key' = channelIdentifier table key ↔
      (table' = table ∧ key' = key) ∨
        SlashMoved table key table' key' ∨
        SlashMoved table' key' table key := by
  rw [channelIdentifier, channelIdentifier, eq_comm, ← String.toList_inj,
    toList_slash, toList_slash, append_separator_eq_iff, slashMoved_iff,
    slashMoved_iff, String.toList_inj, String.toList_inj]

namespace SubscriptionManager

/-- The events of the listed calls of `notify` for exactly this record. -/
def notifiedFor (table key : String) :
    List SubscriptionEvent → List KeyEvent
  | [] => []
  | .notify table' key' event :: rest =>
      if table' = table ∧ key' = key then
        event :: notifiedFor table key rest
      else
        notifiedFor table key rest
  | _ :: rest => notifiedFor table key rest

/-- No call notifies another record with the same channel. -/
def NoClash (table key : String) (events : List SubscriptionEvent) : Prop :=
  ∀ table' key' event, SubscriptionEvent.notify table' key' event ∈ events →
    ¬ SlashMoved table key table' key' ∧ ¬ SlashMoved table' key' table key

theorem noClash_iff {table key : String} {events : List SubscriptionEvent} :
    NoClash table key events ↔
      ∀ table' key' event,
        SubscriptionEvent.notify table' key' event ∈ events →
          channelIdentifier table' key' = channelIdentifier table key →
            table' = table ∧ key' = key := by
  constructor
  · intro apart table' key' event called shared
    have unmoved := apart table' key' event called
    rcases (channelIdentifier_eq_iff _ _ _ _).mp shared with
      own | moved | moved
    · exact own
    · exact absurd moved unmoved.1
    · exact absurd moved unmoved.2
  · intro own table' key' event called
    constructor
    · intro moved
      have shared := (channelIdentifier_eq_iff table key table' key').mpr
        (Or.inr (Or.inl moved))
      exact moved.table_ne (own table' key' event called shared).1
    · intro moved
      have shared := (channelIdentifier_eq_iff table key table' key').mpr
        (Or.inr (Or.inr moved))
      exact moved.table_ne (own table' key' event called shared).1.symm

theorem notifiedFor_sublist (table key : String)
    (events : List SubscriptionEvent) :
    (notifiedFor table key events).Sublist
      (notified (channelIdentifier table key) events) := by
  induction events with
  | nil =>
      exact List.Sublist.refl []
  | cons first rest inductionHypothesis =>
      cases first with
      | notify table' key' event =>
          simp only [notified, notifiedFor]
          by_cases own : table' = table ∧ key' = key
          · rw [if_pos own, if_pos (by rw [own.1, own.2])]
            exact inductionHypothesis.cons_cons event
          · rw [if_neg own]
            split
            · exact inductionHypothesis.cons event
            · exact inductionHypothesis
      | _ =>
          exact inductionHypothesis

theorem noClash_notify_cons {table key table' key' : String}
    {event : KeyEvent} {rest : List SubscriptionEvent} :
    NoClash table key (.notify table' key' event :: rest) ↔
      (channelIdentifier table' key' = channelIdentifier table key →
        table' = table ∧ key' = key) ∧ NoClash table key rest := by
  rw [noClash_iff, noClash_iff]
  constructor
  · intro alone
    refine ⟨alone table' key' event List.mem_cons_self, ?_⟩
    intro tested testedKey testedEvent later
    exact alone tested testedKey testedEvent (List.mem_cons_of_mem _ later)
  · intro ⟨own, alone⟩ tested testedKey testedEvent called
    rcases List.mem_cons.mp called with same | later
    · injection same with sameTable sameKey
      rw [sameTable, sameKey]
      exact own
    · exact alone tested testedKey testedEvent later

/-- A call for another record of the same channel adds an event. -/
theorem notified_eq_notifiedFor_iff (table key : String)
    (events : List SubscriptionEvent) :
    notified (channelIdentifier table key) events =
        notifiedFor table key events ↔
      NoClash table key events := by
  induction events with
  | nil =>
      simp [notified, notifiedFor, NoClash]
  | cons first rest inductionHypothesis =>
      cases first with
      | notify table' key' event =>
          have shorter := (notifiedFor_sublist table key rest).length_le
          rw [noClash_notify_cons, ← inductionHypothesis]
          simp only [notified, notifiedFor]
          by_cases own : table' = table ∧ key' = key
          · rw [if_pos own, if_pos (by rw [own.1, own.2])]
            simp [own]
          · rw [if_neg own]
            by_cases shared : channelIdentifier table' key' =
                channelIdentifier table key
            · rw [if_pos shared]
              constructor
              · intro same
                have lengths := congrArg List.length same
                rw [List.length_cons] at lengths
                omega
              · intro alone
                exact absurd (alone.1 shared) own
            · rw [if_neg shared]
              simp [shared]
      | _ =>
          simp [notified, notifiedFor, inductionHypothesis, NoClash]

/-- A subscriber of `table` and `key` gets only events that were notified for
them, exactly if nothing since was notified for a record whose path differs
by a part moved across the slash. -/
theorem isolated_iff_no_clash {before after : List SubscriptionEvent}
    {manager subscribed final : SubscriptionManager} {table key : String}
    (reached : runSteps step new before = some manager)
    (taken : step manager (.subscribe table key) = some subscribed)
    (continued : runSteps step subscribed after = some final)
    {receiver : Receiver}
    (found : final.receivers[manager.receivers.length]? = some receiver)
    (live : receiver.live = true) :
    (final.sentTo receiver).Sublist (notifiedFor table key after) ↔
      NoClash table key after := by
  have sent : final.sentTo receiver =
      notified (channelIdentifier table key) after :=
    (live_receiver_connected reached taken continued found live).2
  rw [sent, ← notified_eq_notifiedFor_iff]
  constructor
  · intro only
    exact only.antisymm (notifiedFor_sublist table key after)
  · intro same
    rw [same]

/-- The only subscriber of the key `b/c` of the table `a`. -/
def slashSubscribed : SubscriptionManager :=
  (step new (.subscribe "a" "b/c")).get (by decide)

/-- Somebody deletes the key `c` of the table `a/b`. -/
def clashingDelete : List SubscriptionEvent :=
  [.notify "a/b" "c" .deleted]

theorem clashing_delete_received :
    (runResult step slashSubscribed clashingDelete (by decide)).sentTo
        ⟨"a/b/c", 0, 0, true⟩ = [.deleted] ∧
      notifiedFor "a" "b/c" clashingDelete = [] := by
  constructor <;> decide

/-- The only subscriber of the key `n` of the table `notes`. -/
def plainSubscribed : SubscriptionManager :=
  (step new (.subscribe "notes" "n")).get (by decide)

def plainDeletes : List SubscriptionEvent :=
  [.notify "notes" "m" .deleted, .notify "notes" "n" .deleted,
    .notify "notes/n" "n" .deleted]

theorem plain_deletes_isolated :
    ((runResult step plainSubscribed plainDeletes (by decide)).sentTo
        ⟨"notes/n", 0, 0, true⟩).Sublist
      (notifiedFor "notes" "n" plainDeletes) := by
  have apart : NoClash "notes" "n" plainDeletes := by
    rw [plainDeletes, noClash_notify_cons, noClash_notify_cons,
      noClash_notify_cons]
    refine ⟨by decide, by decide, by decide, ?_⟩
    intro table key event called
    cases called
  have found : (runResult step plainSubscribed plainDeletes
      (by decide)).receivers[new.receivers.length]? =
        some ⟨"notes/n", 0, 0, true⟩ := by decide
  exact (isolated_iff_no_clash (runSteps_nil new)
    (Option.some_get _).symm
    (runSteps_eq_some_runResult step plainSubscribed plainDeletes (by decide))
    found rfl).mpr apart

end SubscriptionManager

end DynaRust.Storage
