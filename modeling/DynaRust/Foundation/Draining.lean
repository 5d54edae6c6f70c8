import DynaRust.Foundation.Workers
import Mathlib.Data.Finset.Max
import Mathlib.Logic.Hydra

/-!
# Pools that run dry

A pool to which nothing new comes has only finitely many steps left, because
every step shortens a routine.  If all locks are asked for in ascending order
and nobody waits with a blocking lock, some step is possible until every job
is done.
-/

namespace DynaRust.Foundation

universe u v w x y z

/-- A request comes in. -/
def Schedule.isArrival {ρ : Type x} : Schedule ρ → Bool
  | .arrive _ _ => true
  | _ => false

variable {σ : Type u} {β : Type v} {κ : Type w} {ρ : Type x}

/-! ## Every step shortens a routine -/

/-- The first routine is what one step of the second leaves to do. -/
inductive Routine.IsRest : Routine σ β κ → Routine σ β κ → Prop where
  | lock (name : β) (mode : Mode) (next : Routine σ β κ) :
      IsRest next (.lock name mode next)
  | unlock (name : β) (next : Routine σ β κ) :
      IsRest next (.unlock name next)
  | update (effect : σ → σ) (next : σ → Routine σ β κ) (shared : σ) :
      IsRest (next shared) (.update effect next)
  | acquire (name : κ) (mode : Mode) (next : Routine σ β κ) :
      IsRest next (.acquire name mode next)
  | release (name : κ) (next : Routine σ β κ) :
      IsRest next (.release name next)
  | pause (next : Routine σ β κ) : IsRest next (.pause next)

theorem Routine.wellFounded_isRest :
    WellFounded (IsRest : Routine σ β κ → Routine σ β κ → Prop) := by
  constructor
  intro routine
  induction routine with
  | done =>
      exact ⟨_, nofun⟩
  | lock name mode next inductionHypothesis =>
      refine ⟨_, fun rest isRest => ?_⟩
      cases isRest
      exact inductionHypothesis
  | unlock name next inductionHypothesis =>
      refine ⟨_, fun rest isRest => ?_⟩
      cases isRest
      exact inductionHypothesis
  | update effect next inductionHypothesis =>
      refine ⟨_, fun rest isRest => ?_⟩
      cases isRest
      exact inductionHypothesis _
  | acquire name mode next inductionHypothesis =>
      refine ⟨_, fun rest isRest => ?_⟩
      cases isRest
      exact inductionHypothesis
  | release name next inductionHypothesis =>
      refine ⟨_, fun rest isRest => ?_⟩
      cases isRest
      exact inductionHypothesis
  | pause next inductionHypothesis =>
      refine ⟨_, fun rest isRest => ?_⟩
      cases isRest
      exact inductionHypothesis

/-- A job gets on: it has less left to do, or as much but runs again. -/
inductive Job.IsAfter : Job σ β κ ρ → Job σ β κ ρ → Prop where
  | moved {later job : Job σ β κ ρ} :
      later.rest.IsRest job.rest → IsAfter later job
  | woken {later job : Job σ β κ ρ} : later.rest = job.rest →
      job.status ≠ .running → later.status = .running → IsAfter later job

/-- What is left of a job, and whether it is suspended. -/
def Job.ahead [DecidableEq κ] (job : Job σ β κ ρ) : Routine σ β κ × Nat :=
  (job.rest, if job.status = .running then 0 else 1)

theorem Job.wellFounded_isAfter [DecidableEq κ] :
    WellFounded (IsAfter : Job σ β κ ρ → Job σ β κ ρ → Prop) := by
  have order : WellFounded
      (Prod.Lex (Routine.IsRest (σ := σ) (β := β) (κ := κ)) Nat.lt) :=
    (Prod.lex ⟨_, Routine.wellFounded_isRest⟩ Nat.lt_wfRel).wf
  refine Subrelation.wf ?_ (InvImage.wf Job.ahead order)
  intro later job after
  cases after with
  | moved shorter =>
      exact Prod.Lex.left _ _ shorter
  | woken same suspended runs =>
      unfold InvImage ahead
      rw [same, if_pos runs, if_neg suspended]
      exact Prod.Lex.right _ Nat.zero_lt_one

variable [DecidableEq β] [DecidableEq κ]

theorem Pool.Moves.isAfter {pool : Pool σ β κ ρ} {job later : Job σ β κ ρ}
    (moved : pool.Moves job later) : later.IsAfter job := by
  apply Job.IsAfter.moved
  cases moved with
  | locked name mode next found =>
      rw [found]
      exact .lock name mode next
  | unlocked name next found =>
      rw [found]
      exact .unlock name next
  | updated effect next found =>
      rw [found]
      exact .update effect next pool.shared
  | granted name mode next found =>
      rw [found]
      exact .acquire name mode next
  | refused name mode next found refused =>
      rw [found]
      exact .acquire name mode next
  | released name next found =>
      rw [found]
      exact .release name next
  | paused next found =>
      rw [found]
      exact .pause next

theorem Pool.jobs_of_advance {pool next : Pool σ β κ ρ} {index : Nat}
    {job : Job σ β κ ρ} (taken : pool.advance index job = some next) :
    next.jobs = pool.jobs.eraseIdx index ∨
      ∃ later, pool.Moves job later ∧
        next.jobs = pool.jobs.set index later := by
  unfold advance at taken
  split at taken
  · cases taken
    exact Or.inl rfl
  · rename_i name mode rest found
    split at taken
    · cases taken
      exact Or.inr ⟨_, .locked job name mode rest found, rfl⟩
    · cases taken
  · rename_i name rest found
    cases taken
    exact Or.inr ⟨_, .unlocked job name rest found, rfl⟩
  · rename_i effect rest found
    cases taken
    exact Or.inr ⟨_, .updated job effect rest found, rfl⟩
  · rename_i name mode rest found
    split at taken
    · cases taken
      exact Or.inr ⟨_, .granted job name mode rest found, rfl⟩
    · rename_i refused
      cases taken
      exact Or.inr ⟨_, .refused job name mode rest found
        (Bool.eq_false_iff.mpr refused), rfl⟩
  · rename_i name rest found
    cases taken
    exact Or.inr ⟨_, .released job name rest found, rfl⟩
  · rename_i rest found
    cases taken
    exact Or.inr ⟨_, .paused job rest found, rfl⟩

omit [DecidableEq β] in
theorem Pool.isAfter_of_wake {pool : Pool σ β κ ρ} {job woken : Job σ β κ ρ}
    (woke : pool.wake job = some woken) : woken.IsAfter job := by
  obtain ⟨runs, -, rest, -⟩ := wake_eq_some woke
  refine .woken rest ?_ runs
  intro running
  rw [wake, running] at woke
  cases woke

/-- A step without an arrival ends one job or lets it get on. -/
theorem Pool.jobs_of_step {program : ρ → Routine σ β κ}
    {pool next : Pool σ β κ ρ} {event : Schedule ρ}
    (goesOn : event.isArrival = false)
    (taken : pool.step program event = some next) :
    ∃ index job, pool.jobs[index]? = some job ∧
      (next.jobs = pool.jobs.eraseIdx index ∨
        ∃ later : Job σ β κ ρ, later.IsAfter job ∧
          next.jobs = pool.jobs.set index later) := by
  cases event with
  | arrive worker request =>
      cases goesOn
  | resume index =>
      obtain ⟨job, found, resumed⟩ := Option.bind_eq_some_iff.mp taken
      split at resumed
      · cases resumed
      · obtain ⟨woken, woke, rfl⟩ := Option.map_eq_some_iff.mp resumed
        exact ⟨index, job, found,
          Or.inr ⟨woken, isAfter_of_wake woke, rfl⟩⟩
  | run index =>
      obtain ⟨job, found, ran⟩ := Option.bind_eq_some_iff.mp taken
      split at ran
      · refine ⟨index, job, found, ?_⟩
        refine (jobs_of_advance ran).imp_right ?_
        rintro ⟨later, moved, result⟩
        exact ⟨later, moved.isAfter, result⟩
      · cases ran

/-- The second pool becomes the first in a step that brings nothing new. -/
def Pool.GoesOn (program : ρ → Routine σ β κ)
    (next pool : Pool σ β κ ρ) : Prop :=
  ∃ event : Schedule ρ, event.isArrival = false ∧
    pool.step program event = some next

/-- Nothing goes on forever without new requests. -/
theorem Pool.wellFounded_goesOn (program : ρ → Routine σ β κ) :
    WellFounded (GoesOn program) := by
  refine Subrelation.wf ?_ (InvImage.wf
    (fun pool => (pool.jobs : Multiset (Job σ β κ ρ)))
    (Job.wellFounded_isAfter).cutExpand)
  rintro next pool ⟨event, goesOn, taken⟩
  obtain ⟨index, job, found, result⟩ := jobs_of_step goesOn taken
  obtain ⟨inside, isJob⟩ := List.getElem?_eq_some_iff.mp found
  have whole : (pool.jobs : Multiset (Job σ β κ ρ)) =
      job ::ₘ (pool.jobs.eraseIdx index) := by
    rw [← isJob, Multiset.cons_coe]
    exact (Multiset.coe_eq_coe.mpr
      (List.getElem_cons_eraseIdx_perm inside)).symm
  rcases result with ended | ⟨later, after, moved⟩
  · refine ⟨0, job, nofun, ?_⟩
    dsimp only
    rw [ended, whole, add_zero, add_comm, Multiset.singleton_add]
  · have changed : (next.jobs : Multiset (Job σ β κ ρ)) =
        later ::ₘ (pool.jobs.eraseIdx index) := by
      rw [moved, Multiset.cons_coe]
      exact Multiset.coe_eq_coe.mpr
        (List.set_perm_cons_eraseIdx inside later)
    refine ⟨{later}, job, ?_, ?_⟩
    · intro other member
      rw [Multiset.mem_singleton.mp member]
      exact after
    · dsimp only
      rw [changed, whole, add_comm, Multiset.singleton_add, add_comm,
        Multiset.singleton_add, Multiset.cons_swap]

/-! ## Locks in ascending order -/

section Ascending

variable {α : Type y} {γ : Type z} [LinearOrder α] [LinearOrder γ]
variable (lockRank : β → α) (asyncRank : κ → γ)

/-- Every lock is asked for above those that the routine has already. -/
def Routine.Ascends :
    Routine σ β κ → List (β × Mode) → List (κ × Mode) → Prop
  | .done, _, _ => True
  | .lock name mode next, held, permits =>
      (∀ guard ∈ held, lockRank guard.1 < lockRank name) ∧
        next.Ascends ((name, mode) :: held) permits
  | .unlock name next, held, permits =>
      next.Ascends (dropGuard name held) permits
  | .update _ next, held, permits =>
      ∀ shared, (next shared).Ascends held permits
  | .acquire name mode next, held, permits =>
      (∀ permit ∈ permits, asyncRank permit.1 < asyncRank name) ∧
        next.Ascends held ((name, mode) :: permits)
  | .release name next, held, permits =>
      next.Ascends held (dropGuard name permits)
  | .pause next, held, permits => next.Ascends held permits

/-- A waiting job is held to what it will do with the permit it waits for. -/
def Job.Ascends (job : Job σ β κ ρ) : Prop :=
  match job.status with
  | .waiting name mode _ =>
      (∀ permit ∈ job.permits, asyncRank permit.1 < asyncRank name) ∧
        job.rest.Ascends lockRank asyncRank job.guards
          ((name, mode) :: job.permits)
  | _ => job.rest.Ascends lockRank asyncRank job.guards job.permits

def Pool.Ascends (pool : Pool σ β κ ρ) : Prop :=
  ∀ job ∈ pool.jobs, job.Ascends lockRank asyncRank

variable {lockRank asyncRank}

theorem Job.Ascends.of_running {job : Job σ β κ ρ}
    (running : job.status = .running)
    (ascends : job.Ascends lockRank asyncRank) :
    job.rest.Ascends lockRank asyncRank job.guards job.permits := by
  rw [Job.Ascends, running] at ascends
  exact ascends

theorem Pool.Moves.ascends {pool : Pool σ β κ ρ} {job later : Job σ β κ ρ}
    (moved : pool.Moves job later) (running : job.status = .running)
    (ascends : job.Ascends lockRank asyncRank) :
    later.Ascends lockRank asyncRank := by
  replace ascends := ascends.of_running running
  unfold Job.Ascends
  cases moved with
  | locked name mode next found =>
      rw [found, Routine.Ascends] at ascends
      dsimp only
      rw [running]
      exact ascends.2
  | unlocked name next found =>
      rw [found, Routine.Ascends] at ascends
      dsimp only
      rw [running]
      exact ascends
  | updated effect next found =>
      rw [found, Routine.Ascends] at ascends
      dsimp only
      rw [running]
      exact ascends pool.shared
  | granted name mode next found =>
      rw [found, Routine.Ascends] at ascends
      dsimp only
      rw [running]
      exact ascends.2
  | refused name mode next found refused =>
      rw [found, Routine.Ascends] at ascends
      exact ascends
  | released name next found =>
      rw [found, Routine.Ascends] at ascends
      dsimp only
      rw [running]
      exact ascends
  | paused next found =>
      rw [found, Routine.Ascends] at ascends
      exact ascends

theorem Pool.ascends_of_wake {pool : Pool σ β κ ρ}
    {job woken : Job σ β κ ρ} (woke : pool.wake job = some woken)
    (ascends : job.Ascends lockRank asyncRank) :
    woken.Ascends lockRank asyncRank := by
  unfold Job.Ascends at ascends
  unfold wake at woke
  split at woke
  · cases woke
  · rename_i ready
    cases woke
    rw [ready] at ascends
    exact ascends
  · rename_i name mode ticket waiting
    rw [waiting] at ascends
    split at woke
    · cases woke
      exact ascends.2
    · cases woke

theorem Pool.ascends_step {program : ρ → Routine σ β κ}
    (ordered : ∀ request,
      (program request).Ascends lockRank asyncRank [] [])
    {pool next : Pool σ β κ ρ} {event : Schedule ρ}
    (taken : pool.step program event = some next)
    (ascends : pool.Ascends lockRank asyncRank) :
    next.Ascends lockRank asyncRank := by
  intro later member
  rcases mem_jobs_of_step taken member with
    old | ⟨worker, request, rfl⟩ | ⟨job, inside, woke⟩ |
      ⟨index, job, _, found, running, moved⟩
  · exact ascends later old
  · exact ordered request
  · exact ascends_of_wake woke (ascends job inside)
  · exact moved.ascends running (ascends job (List.mem_of_getElem? found))

/-! ## Some step is possible -/

theorem Pool.exists_advance {pool : Pool σ β κ ρ} {job : Job σ β κ ρ}
    (free : ∀ name mode next, job.rest = .lock name mode next →
      pool.isFree name mode = true) (index : Nat) :
    ∃ next, pool.advance index job = some next := by
  unfold advance
  split
  · exact ⟨_, rfl⟩
  · rename_i name mode next found
    rw [if_pos (free name mode next found)]
    exact ⟨_, rfl⟩
  · exact ⟨_, rfl⟩
  · exact ⟨_, rfl⟩
  · split
    · exact ⟨_, rfl⟩
    · exact ⟨_, rfl⟩
  · exact ⟨_, rfl⟩
  · exact ⟨_, rfl⟩

/-- A running job that cannot go on has come to a lock that somebody has. -/
theorem Pool.blocked_of_stuck {program : ρ → Routine σ β κ}
    {pool : Pool σ β κ ρ} (stuck : ¬ ∃ next, GoesOn program next pool)
    {job : Job σ β κ ρ} (member : job ∈ pool.jobs)
    (running : job.status = .running) :
    ∃ name mode next, job.rest = .lock name mode next ∧
      ∃ other ∈ pool.jobs, ∃ otherMode, (name, otherMode) ∈ other.guards := by
  by_contra free
  apply stuck
  obtain ⟨index, found⟩ := List.mem_iff_getElem?.mp member
  have advances : ∃ next, pool.advance index job = some next := by
    apply exists_advance
    intro name mode next wants
    simp only [isFree, List.all_eq_true]
    intro other among guard held
    have different : guard.1 ≠ name := by
      rintro rfl
      exact free ⟨guard.1, mode, next, wants, other, among, guard.2, held⟩
    simp [different]
  obtain ⟨next, advanced⟩ := advances
  refine ⟨next, .run index, rfl, ?_⟩
  simp [step, found, running, advanced]

/-- The blocking lock that the job has come to, by its rank. -/
def Job.wantedRank (lockRank : β → α) (job : Job σ β κ ρ) : WithBot α :=
  match job.rest with
  | .lock name _ _ => (lockRank name : WithBot α)
  | _ => ⊥

/-- As long as a job runs, some job can go on: of those that are blocked, the
holder of the highest lock would have come to a higher one. -/
theorem Pool.goesOn_of_running {program : ρ → Routine σ β κ}
    {pool : Pool σ β κ ρ} (ascends : pool.Ascends lockRank asyncRank)
    (guardFree : ∀ job ∈ pool.jobs, job.status ≠ .running → job.guards = [])
    {job : Job σ β κ ρ} (member : job ∈ pool.jobs)
    (running : job.status = .running) :
    ∃ next, GoesOn program next pool := by
  classical
  by_contra stuck
  obtain ⟨top, isTop, highest⟩ := Finset.exists_max_image
    (pool.jobs.toFinset.filter fun job => job.status = .running)
    (Job.wantedRank lockRank)
    ⟨job, Finset.mem_filter.mpr ⟨List.mem_toFinset.mpr member, running⟩⟩
  obtain ⟨inside, topRuns⟩ := Finset.mem_filter.mp isTop
  obtain ⟨name, mode, next, wants, other, among, otherMode, held⟩ :=
    blocked_of_stuck stuck (List.mem_toFinset.mp inside) topRuns
  have otherRuns : other.status = .running := by
    by_contra suspended
    rw [guardFree other among suspended] at held
    cases held
  obtain ⟨higher, higherMode, later, otherWants, -⟩ :=
    blocked_of_stuck stuck among otherRuns
  have above : lockRank name < lockRank higher := by
    have order := (ascends other among).of_running otherRuns
    rw [otherWants] at order
    exact order.1 (name, otherMode) held
  have order := highest other (Finset.mem_filter.mpr
    ⟨List.mem_toFinset.mpr among, otherRuns⟩)
  simp only [Job.wantedRank, wants, otherWants, WithBot.coe_le_coe] at order
  exact absurd above (not_lt.mpr order)

/-- The asynchronous lock that the job waits for, by its rank. -/
def Job.awaitedRank (asyncRank : κ → γ) (job : Job σ β κ ρ) : WithBot γ :=
  match job.status with
  | .waiting name _ _ => (asyncRank name : WithBot γ)
  | _ => ⊥

def Job.ticket (job : Job σ β κ ρ) : Nat :=
  match job.status with
  | .waiting _ _ ticket => ticket
  | _ => 0

/-- When all jobs wait, the first in the queue of the highest lock is next:
who has that lock would wait for a higher one. -/
theorem Pool.grants_of_waiting {pool : Pool σ β κ ρ}
    (ascends : pool.Ascends lockRank asyncRank)
    (waits : ∀ job ∈ pool.jobs, ∃ name mode ticket,
      job.status = .waiting name mode ticket)
    (busy : pool.jobs ≠ []) :
    ∃ job ∈ pool.jobs, ∃ name mode ticket,
      job.status = .waiting name mode ticket ∧
        pool.grants name mode ticket = true := by
  classical
  obtain ⟨first, firstMember⟩ := List.exists_mem_of_ne_nil _ busy
  obtain ⟨top, isTop, highest⟩ := Finset.exists_max_image
    pool.jobs.toFinset (Job.awaitedRank asyncRank)
    ⟨first, List.mem_toFinset.mpr firstMember⟩
  obtain ⟨name, topMode, topTicket, topWaits⟩ :=
    waits top (List.mem_toFinset.mp isTop)
  -- of those that wait for the highest lock, the one that came first
  obtain ⟨next, isNext, earliest⟩ := Finset.exists_min_image
    (pool.jobs.toFinset.filter fun job => ∃ mode ticket,
      job.status = .waiting name mode ticket) Job.ticket
    ⟨top, Finset.mem_filter.mpr ⟨isTop, topMode, topTicket, topWaits⟩⟩
  obtain ⟨inside, mode, ticket, nextWaits⟩ := Finset.mem_filter.mp isNext
  refine ⟨next, List.mem_toFinset.mp inside, name, mode, ticket, nextWaits, ?_⟩
  simp only [grants, List.all_eq_true, Bool.and_eq_true, Bool.not_eq_true',
    Bool.or_eq_true, decide_eq_true_eq]
  intro other among
  obtain ⟨awaited, otherMode, otherTicket, otherWaits⟩ := waits other among
  have order := highest other (List.mem_toFinset.mpr among)
  simp only [Job.awaitedRank, topWaits, otherWaits, WithBot.coe_le_coe]
    at order
  constructor
  · by_cases same : awaited = name
    · subst same
      have notEarlier := earliest other (Finset.mem_filter.mpr
        ⟨List.mem_toFinset.mpr among, otherMode, otherTicket, otherWaits⟩)
      simp only [Job.ticket, nextWaits, otherWaits] at notEarlier
      simp [Job.isAhead, otherWaits, Nat.not_lt.mpr notEarlier]
    · simp [Job.isAhead, otherWaits, same]
  · intro permit held
    left
    rintro rfl
    have below := ascends other among
    rw [Job.Ascends, otherWaits] at below
    exact absurd (below.1 permit held) (not_lt.mpr order)

theorem Pool.goesOn_of_suspended {program : ρ → Routine σ β κ}
    {pool : Pool σ β κ ρ} (ascends : pool.Ascends lockRank asyncRank)
    (suspended : ∀ job ∈ pool.jobs, job.status ≠ .running)
    (busy : pool.jobs ≠ []) :
    ∃ next, GoesOn program next pool := by
  have idle : ∀ worker, pool.isBusy worker = false := by
    intro worker
    rw [isBusy, List.any_eq_false]
    intro job member
    simp [suspended job member]
  have resumes : ∀ job ∈ pool.jobs, ∀ woken, pool.wake job = some woken →
      ∃ next, GoesOn program next pool := by
    intro job member woken woke
    obtain ⟨index, found⟩ := List.mem_iff_getElem?.mp member
    refine ⟨pool.setJob index woken, .resume index, rfl, ?_⟩
    simp [step, found, idle, woke]
  by_cases ready : ∃ job ∈ pool.jobs, job.status = .ready
  · obtain ⟨job, member, isReady⟩ := ready
    exact resumes job member _ (by rw [wake, isReady])
  · have waits : ∀ job ∈ pool.jobs, ∃ name mode ticket,
        job.status = .waiting name mode ticket := by
      intro job member
      cases status : job.status with
      | running =>
          exact absurd status (suspended job member)
      | ready =>
          exact absurd ⟨job, member, status⟩ ready
      | waiting name mode ticket =>
          exact ⟨name, mode, ticket, rfl⟩
    obtain ⟨job, member, name, mode, ticket, waiting, granted⟩ :=
      grants_of_waiting ascends waits busy
    obtain ⟨woken, woke⟩ : ∃ woken, pool.wake job = some woken := by
      simp [wake, waiting, granted]
    exact resumes job member woken woke

theorem Pool.exists_goesOn {program : ρ → Routine σ β κ}
    {pool : Pool σ β κ ρ} (ascends : pool.Ascends lockRank asyncRank)
    (free : pool.LocksNobodyOut) (busy : pool.jobs ≠ []) :
    ∃ next, GoesOn program next pool := by
  by_cases runs : ∃ job ∈ pool.jobs, job.status = .running
  · obtain ⟨job, member, running⟩ := runs
    exact goesOn_of_running ascends free.guardFree member running
  · exact goesOn_of_suspended ascends
      (fun job member running => runs ⟨job, member, running⟩) busy

end Ascending

/-! ## Running dry -/

/-- However the workers go on with what has arrived, they come to an end with
every job done, unless a job that asks for an asynchronous lock with a guard
is refused on the way. -/
inductive Pool.Drains (program : ρ → Routine σ β κ) (holding : ρ → Bool) :
    Pool σ β κ ρ → Prop
  | done {pool : Pool σ β κ ρ} : pool.jobs = [] →
      Drains program holding pool
  | later {pool : Pool σ β κ ρ} : (∃ next, GoesOn program next pool) →
      (∀ event next, event.isArrival = false →
        pool.unhindered holding event = true →
          pool.step program event = some next →
            Drains program holding next) →
      Drains program holding pool

section Drains

variable {α : Type y} {γ : Type z} [LinearOrder α] [LinearOrder γ]
variable {lockRank : β → α} {asyncRank : κ → γ}

/-- What is known of every pool that a disciplined program reaches. -/
structure Pool.Orderly (lockRank : β → α) (asyncRank : κ → γ)
    (holding : ρ → Bool) (pool : Pool σ β κ ρ) : Prop where
  ascends : pool.Ascends lockRank asyncRank
  follows : pool.Follows holding
  free : pool.LocksNobodyOut

theorem Pool.Orderly.step {program : ρ → Routine σ β κ}
    {holding : ρ → Bool} (disciplined : Disciplined program holding)
    (ordered : ∀ request,
      (program request).Ascends lockRank asyncRank [] [])
    {pool next : Pool σ β κ ρ} {event : Schedule ρ}
    (meets : pool.unhindered holding event = true)
    (taken : pool.step program event = some next)
    (orderly : pool.Orderly lockRank asyncRank holding) :
    next.Orderly lockRank asyncRank holding where
  ascends := ascends_step ordered taken orderly.ascends
  follows := follows_step disciplined taken orderly.follows
  free := locksNobodyOut_step orderly.follows taken orderly.free meets

theorem Pool.Orderly.drains {program : ρ → Routine σ β κ}
    {holding : ρ → Bool} (disciplined : Disciplined program holding)
    (ordered : ∀ request,
      (program request).Ascends lockRank asyncRank [] [])
    {pool : Pool σ β κ ρ} (orderly : pool.Orderly lockRank asyncRank holding) :
    pool.Drains program holding := by
  induction pool using (wellFounded_goesOn program).induction with
  | _ pool inductionHypothesis =>
      by_cases finished : pool.jobs = []
      · exact .done finished
      · refine .later (exists_goesOn orderly.ascends orderly.free finished) ?_
        intro event next goesOn meets taken
        exact inductionHypothesis next ⟨event, goesOn, taken⟩
          (orderly.step disciplined ordered meets taken)

/-- Every pool that is reached without hindrance runs dry. -/
theorem Pool.drains_of_unhindered {program : ρ → Routine σ β κ}
    {holding : ρ → Bool} (disciplined : Disciplined program holding)
    (ordered : ∀ request,
      (program request).Ascends lockRank asyncRank [] [])
    {shared : σ} {events : List (Schedule ρ)} {final : Pool σ β κ ρ}
    (meets : StepsMeet (Pool.step program)
      (fun pool event => pool.unhindered holding event = true)
      (idle shared) events)
    (reached : runSteps (Pool.step program) (idle shared) events =
      some final) :
    final.Drains program holding := by
  have start : (idle shared : Pool σ β κ ρ).Orderly lockRank asyncRank
      holding :=
    ⟨nofun, nofun, LocksNobodyOut.of_guardFree nofun⟩
  have orderly := runSteps_induction
    (fun pool => pool.Orderly lockRank asyncRank holding)
    (fun _ _ _ meets taken => Pool.Orderly.step disciplined ordered meets taken)
    meets reached start
  exact orderly.drains disciplined ordered

end Drains

end DynaRust.Foundation
