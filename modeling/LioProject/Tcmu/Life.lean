import LioProject.Lib.Run
import LioProject.Tcmu.CmdHandler

/-!
# The life of a command

A command is fetched and processed, its sub-commands are taken from the work queue, handlers accept
them, and at some time later they call back. Each of these is an event, and an event runs one
program of the runner to its end. The environment of the program decides which allocations fail and
what the handler answers, so that a run, a list of events, fixes everything that can go one way or
another.

The state records what the command has left behind: its sub-commands, the state of an unmap, the
calls that were made to handlers, and how often it has been completed and tracked.

A program runs to its end before the next event. In the daemon a callback may come while the program
that made the call is still running, from another thread or out of the callout itself. What is left
of that program then touches nothing that the callback touches: either it only returns, or it holds
`state->lock`, for which the callback has to wait. A callback out of the callout itself would wait
for ever; `async_handle_cmd` fails with a deadlock there.
-/

namespace LioProject

namespace Tcmu

/-! ### States -/

/-- What a command has left behind. -/
structure Life where
  /-- The command has been fetched and processed. -/
  begun : Bool
  /-- Its sub-commands, with whether a handler has accepted them or they are in the work queue. -/
  jobs : List (Bool × Job)
  /-- The `struct unmap_state`, while there is one. -/
  unmap : Option UnmapState
  /-- The calls of data callouts. -/
  calls : List Callout
  /-- The statuses with which the command has been completed. -/
  completions : List TcmuSts
  /-- How often `track_aio_request_start` has been called. -/
  starts : ℕ
  /-- How often `track_aio_request_finish` has been called. -/
  finishes : ℕ
  /-- Threads that are to acquire the lock. -/
  lockThreads : ℕ
  /-- While the command was being processed, an allocation or a callout has failed after a
  sub-command had been dispatched. -/
  torn : Bool
  /-- What has brought the daemon down. -/
  fault : Option Fault
  deriving DecidableEq, Repr

/-- A command that has not been fetched. -/
def Life.init : Life := ⟨false, [], none, [], [], 0, 0, 0, false, none⟩

/-- The state after an allocation or a callout has failed. -/
def Life.fails (s : Life) : Life := { s with torn := s.torn || (!s.begun && !s.jobs.isEmpty) }

/-- The state after a handler has been called for a sub-command. -/
def Life.called (s : Life) (j : Job) (co : Callout) : Reply → Life
  | .queued _ => { s with calls := s.calls ++ [co], jobs := s.jobs ++ [(true, j)] }
  | .failed _ => { s with calls := s.calls ++ [co] : Life }.fails

/-- What the operations do to the state. The environment decides what they answer, except for the
state of an unmap, which the command has to itself. -/
def lifeInterp : Prog.Interp Op Ans Life := fun s o =>
  match o with
  | .alloc => fun a => some (a, if a then s else s.fails)
  | .calloc _ => fun a => some (a, if a.isSome then s else s.fails)
  | .mutexInit => fun a => some (a, if a then s else s.fails)
  | .io j co => fun a => some (a, s.called j co a)
  | .enqueue j => fun a => some (a, { s with jobs := s.jobs ++ [(false, j)] })
  | .getUnmap => fun _ => some (s.unmap, s)
  | .putUnmap u => fun a => some (a, { s with unmap := some u })
  | .freeUnmap => fun a => some (a, { s with unmap := none })
  | .complete sts => fun a => some (a, { s with completions := s.completions ++ [sts] })
  | .trackStart => fun a => some (a, { s with starts := s.starts + 1 })
  | .trackFinish => fun a => some (a, { s with finishes := s.finishes + 1 })
  | .spawnLock => fun a => some (a, if a then { s with lockThreads := s.lockThreads + 1 } else s)
  | _ => fun a => some (a, s)

/-- Every program comes to an end. -/
theorem exec_lifeInterp {α : Type} (p : Daemon α) (env : Prog.Env Op Ans) (s : Life) :
    ∃ y, p.exec lifeInterp env s = some y := by
  refine Prog.exec_total (fun s o a => ?_) p env s
  cases o with
  | _ => exact ⟨_, rfl⟩

/-! ### Events -/

/-- What can happen to a command. -/
inductive LifeEvent where
  /-- `tcmur_cmdproc_thread` fetches the command. -/
  | fetch (env : Prog.Env Op Ans)
  /-- A work thread takes a sub-command out of the queue. -/
  | work (i : ℕ) (env : Prog.Env Op Ans)
  /-- A handler calls `done` for a sub-command that it has accepted. -/
  | done (i : ℕ) (ret : TcmuSts) (env : Prog.Env Op Ans)
  /-- A thread that was started for it acquires the lock. -/
  | lockThread (env : Prog.Env Op Ans)

/-- The environment of an event. -/
def LifeEvent.env : LifeEvent → Prog.Env Op Ans
  | .fetch env => env
  | .work _ env => env
  | .done _ _ env => env
  | .lockThread env => env

/-- The program of an event, and the state in which it begins. -/
def LifeEvent.prog (c : Request) (s : Life) : LifeEvent → Option (Daemon Unit × Life)
  | .fetch _ => if s.begun then none else some (processCmd c, s)
  | .work i _ =>
    match s.jobs[i]? with
    | some (false, j) => some (ioWork c j, { s with jobs := s.jobs.eraseIdx i })
    | _ => none
  | .done i ret _ =>
    match s.jobs[i]? with
    | some (true, j) => some (j.done c ret, { s with jobs := s.jobs.eraseIdx i })
    | _ => none
  | .lockThread _ =>
    if s.lockThreads = 0 then none
    else some (aluaLockThreadFn c.dev.handler, { s with lockThreads := s.lockThreads - 1 })

/-- The state after a program. The first program of a command is the one that processes it. -/
def settle : Except Fault Unit × Life → Life
  | (.ok _, s) => { s with begun := true }
  | (.error f, s) => { s with begun := true, fault := some f }

/-- One event, of a daemon that is still up. -/
def lifeStep (c : Request) (s : Life) (e : LifeEvent) : Option Life :=
  if s.fault.isSome then none
  else (e.prog c s).bind fun (p, s) => (p.exec lifeInterp e.env s).map settle

/-- What an event does, spelled out. -/
theorem lifeStep_cases {c : Request} {s s' : Life} {e : LifeEvent} (h : lifeStep c s e = some s') :
    s.fault = none ∧ ∃ p u x v, e.prog c s = some (p, u) ∧
      p.exec lifeInterp e.env u = some (x, v) ∧ s' = settle (x, v) := by
  rw [lifeStep] at h
  split at h
  · exact absurd h (by simp)
  · rename_i hfault
    obtain ⟨⟨p, u⟩, hprog, h⟩ := Option.bind_eq_some_iff.mp h
    obtain ⟨⟨x, v⟩, hexec, h⟩ := Option.map_eq_some_iff.mp h
    exact ⟨by simpa using hfault, p, u, x, v, hprog, hexec, h.symm⟩

end Tcmu

end LioProject
