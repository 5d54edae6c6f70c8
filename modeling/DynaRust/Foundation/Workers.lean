import DynaRust.Foundation.Runs

/-!
# Cooperative workers, blocking locks and asynchronous locks

A worker is a thread that runs routines one at a time and leaves one only when
it is suspended or done.  A blocking lock stops the whole worker until it is
free; at an asynchronous lock only the routine waits, in a queue.
-/

namespace DynaRust.Foundation

universe u v w x

inductive Mode where
  | read
  | write
  deriving DecidableEq

/-- Two readers share a lock, nobody else does. -/
def Mode.excludes : Mode → Mode → Bool
  | .read, .read => false
  | _, _ => true

/-- What is left to do: `σ` is the state that all routines share, `β` names
blocking locks, `κ` asynchronous ones. -/
inductive Routine (σ : Type u) (β : Type v) (κ : Type w) where
  | done
  | lock (name : β) (mode : Mode) (next : Routine σ β κ)
  | unlock (name : β) (next : Routine σ β κ)
  /-- A step on the shared state; the rest may depend on the state before. -/
  | update (effect : σ → σ) (next : σ → Routine σ β κ)
  | acquire (name : κ) (mode : Mode) (next : Routine σ β κ)
  | release (name : κ) (next : Routine σ β κ)
  /-- Waiting for something that is not a lock. -/
  | pause (next : Routine σ β κ)

/-- Where a routine stands: a waiting one asks for a lock and has a ticket. -/
inductive Status (κ : Type w) where
  | running
  | ready
  | waiting (name : κ) (mode : Mode) (ticket : Nat)
  deriving DecidableEq

/-- Drop the latest guard of that name. -/
def dropGuard {β : Type v} [DecidableEq β] (name : β)
    (held : List (β × Mode)) : List (β × Mode) :=
  held.eraseP fun guard => guard.1 = name

@[simp]
theorem dropGuard_cons_self {β : Type v} [DecidableEq β] (name : β)
    (mode : Mode) (held : List (β × Mode)) :
    dropGuard name ((name, mode) :: held) = held := by
  simp [dropGuard]

section Jobs

variable (σ : Type u) (β : Type v) (κ : Type w) (ρ : Type x)

/-- A routine in progress at a worker, with the request it answers. -/
structure Job where
  request : ρ
  worker : Nat
  rest : Routine σ β κ
  guards : List (β × Mode)
  permits : List (κ × Mode)
  status : Status κ

structure Pool where
  shared : σ
  jobs : List (Job σ β κ ρ)
  nextTicket : Nat

/-- The choices of the scheduler. -/
inductive Schedule where
  /-- A request arrives at a worker. -/
  | arrive (worker : Nat) (request : ρ)
  /-- A worker takes up a routine that is ready or next in the queue. -/
  | resume (index : Nat)
  /-- A running routine goes one step further. -/
  | run (index : Nat)
  deriving DecidableEq

end Jobs

variable {σ : Type u} {β : Type v} {κ : Type w} {ρ : Type x}
variable [DecidableEq β] [DecidableEq κ]

/-- A pool in which nothing has arrived yet. -/
def Pool.idle (shared : σ) : Pool σ β κ ρ where
  shared := shared
  jobs := []
  nextTicket := 0

/-- The blocking lock is not held in a way that excludes the mode. -/
def Pool.isFree (pool : Pool σ β κ ρ) (name : β) (mode : Mode) : Bool :=
  pool.jobs.all fun job => job.guards.all fun guard =>
    guard.1 ≠ name || !guard.2.excludes mode

/-- The job waits for the asynchronous lock, ahead of the ticket, in a mode
that excludes the given one. -/
def Job.isAhead (job : Job σ β κ ρ) (name : κ) (mode : Mode)
    (ticket : Nat) : Bool :=
  match job.status with
  | .waiting waited waitedMode waitedTicket =>
      waited = name && waitedTicket < ticket && waitedMode.excludes mode
  | _ => false

/-- Asynchronous locks are fair: one is granted when neither its holders nor
those ahead in its queue exclude the mode. -/
def Pool.grants (pool : Pool σ β κ ρ) (name : κ) (mode : Mode)
    (ticket : Nat) : Bool :=
  pool.jobs.all fun job =>
    !job.isAhead name mode ticket && job.permits.all fun permit =>
      permit.1 ≠ name || !permit.2.excludes mode

/-- The worker is running one of its jobs. -/
def Pool.isBusy (pool : Pool σ β κ ρ) (worker : Nat) : Bool :=
  pool.jobs.any fun job => job.worker = worker && job.status = .running

def Pool.setJob (pool : Pool σ β κ ρ) (index : Nat) (job : Job σ β κ ρ) :
    Pool σ β κ ρ :=
  { pool with jobs := pool.jobs.set index job }

/-- One step of a running job. -/
def Pool.advance (pool : Pool σ β κ ρ) (index : Nat) (job : Job σ β κ ρ) :
    Option (Pool σ β κ ρ) :=
  match job.rest with
  | .done => some { pool with jobs := pool.jobs.eraseIdx index }
  | .lock name mode next =>
      if pool.isFree name mode then
        some (pool.setJob index
          { job with guards := (name, mode) :: job.guards, rest := next })
      else
        none
  | .unlock name next =>
      some (pool.setJob index
        { job with guards := dropGuard name job.guards, rest := next })
  | .update effect next =>
      some { pool.setJob index { job with rest := next pool.shared } with
        shared := effect pool.shared }
  | .acquire name mode next =>
      if pool.grants name mode pool.nextTicket then
        some (pool.setJob index
          { job with permits := (name, mode) :: job.permits, rest := next })
      else
        some { pool.setJob index
            { job with
              rest := next
              status := .waiting name mode pool.nextTicket } with
          nextTicket := pool.nextTicket + 1 }
  | .release name next =>
      some (pool.setJob index
        { job with permits := dropGuard name job.permits, rest := next })
  | .pause next =>
      some (pool.setJob index { job with rest := next, status := .ready })

/-- A suspended job that its worker takes up again. -/
def Pool.wake (pool : Pool σ β κ ρ) (job : Job σ β κ ρ) :
    Option (Job σ β κ ρ) :=
  match job.status with
  | .running => none
  | .ready => some { job with status := .running }
  | .waiting name mode ticket =>
      if pool.grants name mode ticket then
        some { job with
          permits := (name, mode) :: job.permits, status := .running }
      else
        none

def Pool.step (program : ρ → Routine σ β κ) (pool : Pool σ β κ ρ) :
    Schedule ρ → Option (Pool σ β κ ρ)
  | .arrive worker request =>
      some { pool with
        jobs := pool.jobs ++ [⟨request, worker, program request, [], [],
          .ready⟩] }
  | .resume index =>
      pool.jobs[index]?.bind fun job =>
        if pool.isBusy job.worker then none
        else (pool.wake job).map (pool.setJob index)
  | .run index =>
      pool.jobs[index]?.bind fun job =>
        if job.status = .running then pool.advance index job else none

/-! ## Locking out -/

/-- A running job has come to a blocking lock that the other one holds. -/
def Job.isBlockedBy (job other : Job σ β κ ρ) : Bool :=
  job.status = .running &&
    match job.rest with
    | .lock name mode _ =>
        other.guards.any fun guard =>
          guard.1 = name && guard.2.excludes mode
    | _ => false

/-- No job is suspended with a blocking lock, so that no worker is blocked by
a job of its own that only it could take up again. -/
structure Pool.LocksNobodyOut (pool : Pool σ β κ ρ) : Prop where
  guardFree : ∀ job ∈ pool.jobs, job.status ≠ .running → job.guards = []
  notByOwn : ∀ job ∈ pool.jobs, ∀ other ∈ pool.jobs,
    other.status ≠ .running → other.worker = job.worker →
      job.isBlockedBy other = false

theorem Pool.LocksNobodyOut.of_guardFree {pool : Pool σ β κ ρ}
    (guardFree : ∀ job ∈ pool.jobs, job.status ≠ .running →
      job.guards = []) : pool.LocksNobodyOut where
  guardFree := guardFree
  notByOwn := fun job _ other member suspended _ => by
    have free : other.guards = [] := guardFree other member suspended
    unfold Job.isBlockedBy
    split <;> simp [free]

/-! ## What one step does to a job -/

/-- A running job before and after its step. -/
inductive Pool.Moves (pool : Pool σ β κ ρ) :
    Job σ β κ ρ → Job σ β κ ρ → Prop where
  | locked (job : Job σ β κ ρ) (name : β) (mode : Mode)
      (next : Routine σ β κ) :
      job.rest = .lock name mode next →
      Moves pool job
        { job with guards := (name, mode) :: job.guards, rest := next }
  | unlocked (job : Job σ β κ ρ) (name : β) (next : Routine σ β κ) :
      job.rest = .unlock name next →
      Moves pool job
        { job with guards := dropGuard name job.guards, rest := next }
  | updated (job : Job σ β κ ρ) (effect : σ → σ)
      (next : σ → Routine σ β κ) :
      job.rest = .update effect next →
      Moves pool job { job with rest := next pool.shared }
  | granted (job : Job σ β κ ρ) (name : κ) (mode : Mode)
      (next : Routine σ β κ) :
      job.rest = .acquire name mode next →
      Moves pool job
        { job with permits := (name, mode) :: job.permits, rest := next }
  | refused (job : Job σ β κ ρ) (name : κ) (mode : Mode)
      (next : Routine σ β κ) :
      job.rest = .acquire name mode next →
      pool.grants name mode pool.nextTicket = false →
      Moves pool job
        { job with
          rest := next, status := .waiting name mode pool.nextTicket }
  | released (job : Job σ β κ ρ) (name : κ) (next : Routine σ β κ) :
      job.rest = .release name next →
      Moves pool job
        { job with permits := dropGuard name job.permits, rest := next }
  | paused (job : Job σ β κ ρ) (next : Routine σ β κ) :
      job.rest = .pause next →
      Moves pool job { job with rest := next, status := .ready }

omit [DecidableEq β] [DecidableEq κ] in
theorem Pool.mem_setJob {pool : Pool σ β κ ρ} {index : Nat}
    {job later : Job σ β κ ρ}
    (member : later ∈ (pool.setJob index job).jobs) :
    later ∈ pool.jobs ∨ later = job :=
  List.mem_or_eq_of_mem_set member

theorem Pool.mem_jobs_of_advance {pool next : Pool σ β κ ρ} {index : Nat}
    {job later : Job σ β κ ρ} (taken : pool.advance index job = some next)
    (member : later ∈ next.jobs) :
    later ∈ pool.jobs ∨ pool.Moves job later := by
  unfold advance at taken
  split at taken
  · cases taken
    exact Or.inl (List.mem_of_mem_eraseIdx member)
  · rename_i name mode rest found
    split at taken
    · cases taken
      refine (mem_setJob member).imp_right ?_
      rintro rfl
      exact .locked job name mode rest found
    · cases taken
  · rename_i name rest found
    cases taken
    refine (mem_setJob member).imp_right ?_
    rintro rfl
    exact .unlocked job name rest found
  · rename_i effect rest found
    cases taken
    refine (mem_setJob member).imp_right ?_
    rintro rfl
    exact .updated job effect rest found
  · rename_i name mode rest found
    split at taken
    · cases taken
      refine (mem_setJob member).imp_right ?_
      rintro rfl
      exact .granted job name mode rest found
    · rename_i refused
      cases taken
      refine (mem_setJob member).imp_right ?_
      rintro rfl
      exact .refused job name mode rest found (Bool.eq_false_iff.mpr refused)
  · rename_i name rest found
    cases taken
    refine (mem_setJob member).imp_right ?_
    rintro rfl
    exact .released job name rest found
  · rename_i rest found
    cases taken
    refine (mem_setJob member).imp_right ?_
    rintro rfl
    exact .paused job rest found

omit [DecidableEq β] in
theorem Pool.wake_eq_some {pool : Pool σ β κ ρ} {job woken : Job σ β κ ρ}
    (taken : pool.wake job = some woken) :
    woken.status = .running ∧ woken.request = job.request ∧
      woken.rest = job.rest ∧ woken.guards = job.guards := by
  unfold wake at taken
  split at taken
  · cases taken
  · cases taken
    exact ⟨rfl, rfl, rfl, rfl⟩
  · split at taken
    · cases taken
      exact ⟨rfl, rfl, rfl, rfl⟩
    · cases taken

/-- Where the jobs after a step come from. -/
theorem Pool.mem_jobs_of_step {program : ρ → Routine σ β κ}
    {pool next : Pool σ β κ ρ} {event : Schedule ρ}
    (taken : pool.step program event = some next) {later : Job σ β κ ρ}
    (member : later ∈ next.jobs) :
    later ∈ pool.jobs ∨
    (∃ worker request,
      later = ⟨request, worker, program request, [], [], .ready⟩) ∨
    (∃ job ∈ pool.jobs, pool.wake job = some later) ∨
    (∃ index job, event = .run index ∧ pool.jobs[index]? = some job ∧
      job.status = .running ∧ pool.Moves job later) := by
  cases event with
  | arrive worker request =>
      cases taken
      rcases List.mem_append.mp member with old | new
      · exact Or.inl old
      · exact Or.inr (Or.inl ⟨worker, request, List.mem_singleton.mp new⟩)
  | resume index =>
      obtain ⟨job, found, resumed⟩ := Option.bind_eq_some_iff.mp taken
      split at resumed
      · cases resumed
      · obtain ⟨woken, woke, rfl⟩ := Option.map_eq_some_iff.mp resumed
        rcases mem_setJob member with old | rfl
        · exact Or.inl old
        · right
          right
          left
          exact ⟨job, List.mem_of_getElem? found, woke⟩
  | run index =>
      obtain ⟨job, found, ran⟩ := Option.bind_eq_some_iff.mp taken
      split at ran
      · rename_i running
        rcases mem_jobs_of_advance ran member with old | moved
        · exact Or.inl old
        · right
          right
          right
          exact ⟨index, job, rfl, found, running, moved⟩
      · cases ran

/-! ## Routines that let go before they wait -/

/-- Wherever the routine asks for an asynchronous lock, the guards it has are
as given; it never pauses with one. -/
def Routine.AcquiresWith (fits : List (β × Mode) → Prop) :
    Routine σ β κ → List (β × Mode) → Prop
  | .done, _ => True
  | .lock name mode next, held => next.AcquiresWith fits ((name, mode) :: held)
  | .unlock name next, held => next.AcquiresWith fits (dropGuard name held)
  | .update _ next, held => ∀ shared, (next shared).AcquiresWith fits held
  | .acquire _ _ next, held => fits held ∧ next.AcquiresWith fits held
  | .release _ next, held => next.AcquiresWith fits held
  | .pause next, held => held = [] ∧ next.AcquiresWith fits held

/-- The requests that ask for their asynchronous locks with a guard, and the
others. -/
def waitsWith (holding : ρ → Bool) (request : ρ)
    (held : List (β × Mode)) : Prop :=
  held = [] ↔ holding request = false

/-- Every request waits as it is said to. -/
def Disciplined (program : ρ → Routine σ β κ) (holding : ρ → Bool) : Prop :=
  ∀ request, (program request).AcquiresWith (waitsWith holding request) []

def Pool.Follows (holding : ρ → Bool) (pool : Pool σ β κ ρ) : Prop :=
  ∀ job ∈ pool.jobs,
    job.rest.AcquiresWith (waitsWith holding job.request) job.guards

theorem Pool.Moves.follows {holding : ρ → Bool} {pool : Pool σ β κ ρ}
    {job later : Job σ β κ ρ} (moved : pool.Moves job later)
    (follows : job.rest.AcquiresWith (waitsWith holding job.request)
      job.guards) :
    later.rest.AcquiresWith (waitsWith holding later.request)
      later.guards := by
  cases moved with
  | locked name mode next found =>
      rw [found, Routine.AcquiresWith] at follows
      exact follows
  | unlocked name next found =>
      rw [found, Routine.AcquiresWith] at follows
      exact follows
  | updated effect next found =>
      rw [found, Routine.AcquiresWith] at follows
      exact follows pool.shared
  | granted name mode next found =>
      rw [found, Routine.AcquiresWith] at follows
      exact follows.2
  | refused name mode next found refused =>
      rw [found, Routine.AcquiresWith] at follows
      exact follows.2
  | released name next found =>
      rw [found, Routine.AcquiresWith] at follows
      exact follows
  | paused next found =>
      rw [found, Routine.AcquiresWith] at follows
      exact follows.2

theorem Pool.follows_step {program : ρ → Routine σ β κ} {holding : ρ → Bool}
    (disciplined : Disciplined program holding) {pool next : Pool σ β κ ρ}
    {event : Schedule ρ} (taken : pool.step program event = some next)
    (follows : pool.Follows holding) : next.Follows holding := by
  intro later member
  rcases mem_jobs_of_step taken member with
    old | ⟨worker, request, rfl⟩ | ⟨job, inside, woke⟩ |
      ⟨index, job, _, found, _, moved⟩
  · exact follows later old
  · exact disciplined request
  · obtain ⟨-, request, rest, guards⟩ := wake_eq_some woke
    rw [request, rest, guards]
    exact follows job inside
  · exact moved.follows (follows job (List.mem_of_getElem? found))

/-- A running job that holds guards where it asks for an asynchronous lock is
granted it at once. -/
def Pool.unhindered (holding : ρ → Bool) (pool : Pool σ β κ ρ) :
    Schedule ρ → Bool
  | .run index =>
      match pool.jobs[index]? with
      | some job =>
          match job.rest with
          | .acquire name mode _ =>
              !holding job.request || job.status ≠ .running ||
                pool.grants name mode pool.nextTicket
          | _ => true
      | none => true
  | _ => true

theorem Pool.locksNobodyOut_step {program : ρ → Routine σ β κ}
    {holding : ρ → Bool} {pool next : Pool σ β κ ρ} {event : Schedule ρ}
    (follows : pool.Follows holding)
    (taken : pool.step program event = some next)
    (before : pool.LocksNobodyOut)
    (meets : pool.unhindered holding event = true) :
    next.LocksNobodyOut := by
  apply LocksNobodyOut.of_guardFree
  intro later member suspended
  rcases mem_jobs_of_step taken member with
    old | ⟨worker, request, rfl⟩ | ⟨job, _, woke⟩ |
      ⟨index, job, rfl, found, running, moved⟩
  · exact before.guardFree later old suspended
  · rfl
  · exact absurd (wake_eq_some woke).1 suspended
  · have own := follows job (List.mem_of_getElem? found)
    cases moved with
    | refused name mode next asks refused =>
        rw [asks] at own
        have holds : holding job.request = false := by
          simpa [unhindered, found, asks, running, refused] using meets
        exact own.1.mpr holds
    | paused next pauses =>
        rw [pauses] at own
        exact own.1
    | locked name mode next _ =>
        exact absurd running suspended
    | unlocked name next _ =>
        exact absurd running suspended
    | updated effect next _ =>
        exact absurd running suspended
    | granted name mode next _ =>
        exact absurd running suspended
    | released name next _ =>
        exact absurd running suspended

/-- A job that is refused with a guard is suspended with it. -/
theorem Pool.unhindered_of_locksNobodyOut {program : ρ → Routine σ β κ}
    {holding : ρ → Bool} {pool next : Pool σ β κ ρ} {event : Schedule ρ}
    (follows : pool.Follows holding)
    (taken : pool.step program event = some next)
    (after : next.LocksNobodyOut) :
    pool.unhindered holding event = true := by
  cases event with
  | arrive worker request =>
      rfl
  | resume index =>
      rfl
  | run index =>
      obtain ⟨job, found, ran⟩ := Option.bind_eq_some_iff.mp taken
      split at ran
      · rename_i running
        cases asks : job.rest with
        | acquire name mode rest =>
            by_contra hindered
            simp only [unhindered, found, asks, running, Bool.or_eq_true,
              Bool.not_eq_true', not_or] at hindered
            obtain ⟨⟨holds, -⟩, refused⟩ := hindered
            have own := follows job (List.mem_of_getElem? found)
            rw [asks] at own
            have inside : index < pool.jobs.length :=
              (List.getElem?_eq_some_iff.mp found).1
            rw [advance, asks] at ran
            simp only [refused] at ran
            cases ran
            have free : job.guards = [] := after.guardFree
              { job with
                rest := rest
                status := .waiting name mode pool.nextTicket }
              (List.mem_set inside _) (by simp)
            exact holds (own.1.mp free)
        | _ =>
            simp [unhindered, found, asks]
      · cases ran

/-- Workers are never locked out by their own jobs exactly when no job that
asks for an asynchronous lock with a guard is refused. -/
theorem Pool.throughout_locksNobodyOut_iff {program : ρ → Routine σ β κ}
    {holding : ρ → Bool} (disciplined : Disciplined program holding)
    {shared : σ} {events : List (Schedule ρ)} {final : Pool σ β κ ρ}
    (reached : runSteps (Pool.step program) (idle shared) events =
      some final) :
    Throughout (Pool.step program) LocksNobodyOut (idle shared) events ↔
      StepsMeet (Pool.step program)
        (fun pool event => pool.unhindered holding event = true)
        (idle shared) events := by
  have start : (idle shared : Pool σ β κ ρ).Follows holding := by
    intro job member
    cases member
  have preserved : ∀ pool event next,
      Pool.step program pool event = some next →
        pool.Follows holding → next.Follows holding :=
    fun _ _ _ taken => follows_step disciplined taken
  have follows := stepsMeet_of_preserved preserved start events
  apply throughout_iff_stepsMeet LocksNobodyOut (fun _ free => free) ?_ ?_
    follows reached (LocksNobodyOut.of_guardFree (fun job member => by
      cases member))
  · intro pool event next follows taken before meets
    exact locksNobodyOut_step follows taken before meets
  · intro pool event next follows taken _ after
    exact unhindered_of_locksNobodyOut follows taken after

end DynaRust.Foundation
