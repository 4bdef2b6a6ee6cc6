import OffloadAlgebra.Device.HostQueue
/-!
  The event lists of one device matrix, used by several threads at once.

  A device matrix keeps three lists of events behind one lock: the events that read it, the
  events that write it, and the events of both.  Recording an event drops the completed events
  of each list it goes on and appends it there (`push_pruned`): a read goes on the read list, a
  write on the write list, an access of both kinds on both, and every access on the list of
  both.  Waiting on the matrix copies the list of both under the lock, waits on each copied
  event in order outside the lock, stopping at the first that failed, and then, under the lock
  again, drops the completed events of all three lists.  A copy back to the host first waits on
  its read and then waits on the matrix.

  Events finish on other threads at any time, also while a thread holds the lock and walks a
  list.  A status only goes from pending to finished (`Status.finish`), so a walk that starts at
  statuses `σ` and ends at `σ'` drops every event complete at `σ`, keeps every event not
  complete at `σ'`, and may do either with an event that completed in between (`Retains`).
  Each section that holds the lock is one step, with the events that finished while it ran.
-/

namespace OffloadAlgebra

/-- How each event stands: `none` while it is pending. -/
abbrev Statuses := Nat → Option Status

namespace Statuses

/-- Whether event `e` completed; a failed or pending event did not. -/
def isComplete (σ : Statuses) (e : Nat) : Bool := σ e == some .complete

/-- Event `e` finishes with `s`, unless it finished already. -/
def finish (σ : Statuses) (e : Nat) (s : Status) : Statuses :=
  fun d => if d = e then Status.finish (σ e) s else σ d

/-- `σ'` comes after `σ`: events may have finished since, and a finished event kept its status. -/
def Later (σ σ' : Statuses) : Prop := ∀ e s, σ e = some s → σ' e = some s

end Statuses

/-- What `retain(|e| !e.is_complete())` leaves of a list while the statuses go from `σ` to `σ'`. -/
inductive Retains (σ σ' : Statuses) : List Nat → List Nat → Prop
  | nil : Retains σ σ' [] []
  | keep {e : Nat} {l l' : List Nat} (h : σ.isComplete e = false) (hl : Retains σ σ' l l') :
      Retains σ σ' (e :: l) (e :: l')
  | drop {e : Nat} {l l' : List Nat} (h : σ'.isComplete e = true) (hl : Retains σ σ' l l') :
      Retains σ σ' (e :: l) l'

/-- `push_pruned`: `l'` is `l` with its completed events dropped and `e` appended. -/
def Pushes (σ σ' : Statuses) (l : List Nat) (e : Nat) (l' : List Nat) : Prop :=
  ∃ kept, Retains σ σ' l kept ∧ l' = kept ++ [e]

/-- The three event lists of a device matrix. -/
structure EventLists where
  reads : List Nat := []
  writes : List Nat := []
  readWrites : List Nat := []

namespace EventLists

/-- Record event `e` as an access in direction `dir` (`add_read_event` for `input`,
    `add_write_event` for `output`, `add_read_write_event` for `inputOutput`). -/
structure Records (σ σ' : Statuses) (dir : Direction) (e : Nat) (ls ls' : EventLists) : Prop where
  reads : if dir.reads then Pushes σ σ' ls.reads e ls'.reads else ls'.reads = ls.reads
  writes : if dir.writes then Pushes σ σ' ls.writes e ls'.writes else ls'.writes = ls.writes
  readWrites : Pushes σ σ' ls.readWrites e ls'.readWrites

/-- Drop the completed events of every list, at the end of a wait. -/
structure Clears (σ σ' : Statuses) (ls ls' : EventLists) : Prop where
  reads : Retains σ σ' ls.reads ls'.reads
  writes : Retains σ σ' ls.writes ls'.writes
  readWrites : Retains σ σ' ls.readWrites ls'.readWrites

end EventLists

/-- A call on the matrix: record event `e` as an access in direction `dir`, wait on the matrix's
    events (`wait_for_read_write_events`), or copy the matrix back to the host (`to_host`) with
    the read whose event is `read`. -/
inductive MatrixCall where
  | add (dir : Direction) (e : Nat)
  | wait
  | toHost (read : Nat)

/-- The call that waits on the matrix: a copy back to the host after its read, or a wait. -/
def MatrixCall.waitOn (read : Option Nat) : MatrixCall := read.elim .wait .toHost

/-- Where a thread is: about to make its next calls; in a copy back to the host, blocked on its
    read; or in the call `MatrixCall.waitOn read`, waiting outside the lock on the events
    `pending` left of those it copied when `start` calls had finished. -/
inductive MatrixThread where
  | ready (calls : List MatrixCall)
  | reading (read : Nat) (rest : List MatrixCall)
  | waiting (read : Option Nat) (start : Nat) (pending : List Nat) (rest : List MatrixCall)

/-- Threads using one device matrix: how the events stand, the matrix's lists, each thread, and
    the calls finished so far in the order they finished, each with its thread and answer. -/
structure MatrixUsers where
  status : Statuses
  lists : EventLists
  threads : List MatrixThread
  finished : List (Nat × MatrixCall × Except Error Unit) := []

namespace MatrixUsers

/-- Threads starting their calls on a new matrix, with events standing as `σ`. -/
def start (σ : Statuses) (programs : List (List MatrixCall)) : MatrixUsers :=
  { status := σ, lists := {}, threads := programs.map .ready }

def setThread (u : MatrixUsers) (t : Nat) (th : MatrixThread) : MatrixUsers :=
  { u with threads := u.threads.set t th }

/-- Thread `t` finishes `call` with answer `a`, leaving statuses `σ` and lists `ls`, and goes on
    with `rest`. -/
def finish (u : MatrixUsers) (t : Nat) (call : MatrixCall) (a : Except Error Unit) (σ : Statuses)
    (ls : EventLists) (rest : List MatrixCall) : MatrixUsers :=
  { status := σ, lists := ls, threads := u.threads.set t (.ready rest), finished := u.finished ++ [(t, call, a)] }

/-- One atomic step: an event finishes, or a thread takes its next step. -/
inductive Step : MatrixUsers → MatrixUsers → Prop
  /-- An event finishes on another thread. -/
  | eventEnds {u : MatrixUsers} (e : Nat) (s : Status) : Step u { u with status := u.status.finish e s }
  /-- An `add_*_event` call, under the lock. -/
  | add {u : MatrixUsers} {t : Nat} {dir : Direction} {e : Nat} {rest : List MatrixCall} {σ' : Statuses}
      {ls' : EventLists} (ht : u.threads[t]? = some (.ready (.add dir e :: rest))) (hσ : u.status.Later σ')
      (hr : u.lists.Records u.status σ' dir e ls') :
      Step u (u.finish t (.add dir e) (.ok ()) σ' ls' rest)
  /-- A wait copies the list of both under the lock. -/
  | snapshot {u : MatrixUsers} {t : Nat} {rest : List MatrixCall} (ht : u.threads[t]? = some (.ready (.wait :: rest))) :
      Step u (u.setThread t (.waiting none u.finished.length u.lists.readWrites rest))
  /-- A copy back to the host submits its read and blocks on it. -/
  | read {u : MatrixUsers} {t r : Nat} {rest : List MatrixCall}
      (ht : u.threads[t]? = some (.ready (.toHost r :: rest))) :
      Step u (u.setThread t (.reading r rest))
  /-- The read failed: the copy fails with its message. -/
  | readFailed {u : MatrixUsers} {t r : Nat} {rest : List MatrixCall} {m : String}
      (ht : u.threads[t]? = some (.reading r rest)) (hs : u.status r = some (.failed m)) :
      Step u (u.finish t (.toHost r) (.error (.device m)) u.status u.lists rest)
  /-- The read completed: the copy waits on the matrix, copying the list of both under the lock.
      What other threads do between the two commutes with the read's end, which stays. -/
  | readDone {u : MatrixUsers} {t r : Nat} {rest : List MatrixCall}
      (ht : u.threads[t]? = some (.reading r rest)) (hs : u.status r = some .complete) :
      Step u (u.setThread t (.waiting (some r) u.finished.length u.lists.readWrites rest))
  /-- The next copied event completed. -/
  | waited {u : MatrixUsers} {t n e : Nat} {read : Option Nat} {pending : List Nat} {rest : List MatrixCall}
      (ht : u.threads[t]? = some (.waiting read n (e :: pending) rest)) (hs : u.status e = some .complete) :
      Step u (u.setThread t (.waiting read n pending rest))
  /-- The next copied event failed: the call fails with its message and the lists stay. -/
  | waitFailed {u : MatrixUsers} {t n e : Nat} {read : Option Nat} {pending : List Nat} {rest : List MatrixCall}
      {m : String} (ht : u.threads[t]? = some (.waiting read n (e :: pending) rest))
      (hs : u.status e = some (.failed m)) :
      Step u (u.finish t (.waitOn read) (.error (.device m)) u.status u.lists rest)
  /-- Every copied event completed: under the lock, drop the completed events of every list. -/
  | cleared {u : MatrixUsers} {t n : Nat} {read : Option Nat} {rest : List MatrixCall} {σ' : Statuses}
      {ls' : EventLists} (ht : u.threads[t]? = some (.waiting read n [] rest)) (hσ : u.status.Later σ')
      (hc : u.lists.Clears u.status σ' ls') :
      Step u (u.finish t (.waitOn read) (.ok ()) σ' ls' rest)

/-- The states reached from `u`, one step at a time. -/
inductive Runs : MatrixUsers → MatrixUsers → Prop
  | refl (u : MatrixUsers) : Runs u u
  | step {u u₁ u' : MatrixUsers} (h : Step u u₁) (hrest : Runs u₁ u') : Runs u u'

end MatrixUsers

end OffloadAlgebra
