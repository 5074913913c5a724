import Mathlib

/-!
# Processes with a timer, a request handler and an event loop

Such a process has three threads. A thread is a stack of *frames*, a frame being the code up to the next point where
another thread may run. Executing the top frame changes the shared state, replaces the frame by the frames that follow
it and may post jobs. The loop runs posted jobs one after the other, so its stack is what is left of the current job
followed by the queue.
-/

inductive Thread where
  | timer
  | requests
  | loop
deriving DecidableEq

structure Threads (φ : Type) where
  timer : List φ := []
  requests : List φ := []
  loop : List φ := []
deriving DecidableEq

namespace Threads

variable {φ σ : Type}

def stack (ts : Threads φ) : Thread → List φ
  | .timer => ts.timer
  | .requests => ts.requests
  | .loop => ts.loop

def replace (ts : Threads φ) (frames : List φ) : Thread → Threads φ
  | .timer => { ts with timer := frames }
  | .requests => { ts with requests := frames }
  | .loop => { ts with loop := frames }

def post (ts : Threads φ) (jobs : List φ) : Threads φ := { ts with loop := ts.loop ++ jobs }

def pending (ts : Threads φ) : List φ := ts.timer ++ ts.requests ++ ts.loop

def Idle (ts : Threads φ) : Prop := ts.pending = []

instance (ts : Threads φ) : Decidable ts.Idle := decidable_of_iff _ List.isEmpty_iff

/-- A frame arrives at a thread; one that is busy does not take it. -/
def call (ts : Threads φ) (t : Thread) (frame : φ) : Threads φ :=
  if ts.stack t = [] then ts.replace [frame] t else ts

/-- A thread executes its top frame. `exec` gives the new state, the frames that follow and the jobs posted. -/
def advance (exec : φ → σ → σ × List φ × List φ) (t : Thread) (s : σ) (ts : Threads φ) : σ × Threads φ :=
  match ts.stack t with
  | [] => (s, ts)
  | frame :: rest =>
    let (s', next, jobs) := exec frame s
    (s', (ts.replace (next ++ rest) t).post jobs)

theorem advance_nil {exec : φ → σ → σ × List φ × List φ} {t : Thread} {s : σ} {ts : Threads φ}
    (h : ts.stack t = []) : advance exec t s ts = (s, ts) := by simp only [advance, h]

theorem advance_cons {exec : φ → σ → σ × List φ × List φ} {t : Thread} {s : σ} {ts : Threads φ} {frame : φ}
    {rest : List φ} (h : ts.stack t = frame :: rest) :
    advance exec t s ts =
      ((exec frame s).1, (ts.replace ((exec frame s).2.1 ++ rest) t).post (exec frame s).2.2) := by
  simp only [advance, h]

variable {τ : Type} (token : φ → Option τ)

theorem filterMap_cons_toList (frame : φ) (rest : List φ) :
    (frame :: rest).filterMap token = (token frame).toList ++ rest.filterMap token := by
  cases h : token frame <;> simp [h]

end Threads
