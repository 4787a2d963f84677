import Osh.Lib.PartialRun
import Osh.Lib.ProcessTable

/-!
# The fork server

`main` and `sigchld_handler` of `TCPserverForkHi.c`, with the children that `main` forks and
the kernel's part in their end. The system calls of `main` are its program points. A
termination sets the pending flag of `SIGCHLD`, which is one flag however many children
terminate. The handler is started where it is not running, since it masks all signals, and
interrupts `main` at any point; an interrupted call is restarted afterwards. What a child
does with its client is left out: a child may terminate at any moment.

## Main definitions

* `Server`: the program points, the children and the signal.
* `step`: one step of `main`, the handler, a child or the kernel.
* `Quiet`: no signal is pending and the handler is not running.
-/
namespace Osh.ForkServer
open PartialRun

/-- The system call that `main` is about to make, or the end of `main`. -/
inductive Point
  | sigfillset
  | sigaction
  | socket
  | setsockopt
  | bind
  | listen
  | accept
  | fork
  | returned
deriving DecidableEq, Repr

/-- Where `main` goes on after a call that succeeds; `fork` says which child there is, and
has a step of its own. -/
def Point.succeeds : Point → Option Point
  | sigfillset => some sigaction
  | sigaction => some socket
  | socket => some setsockopt
  | setsockopt => some bind
  | bind => some listen
  | listen => some accept
  | accept => some fork
  | fork | returned => none

/-- Where `main` goes on after a call that fails. The result of `listen` is not looked at;
`accept` and `fork` are followed by the next iteration. -/
def Point.fails : Point → Option Point
  | sigfillset | sigaction | socket | setsockopt | bind => some returned
  | listen | accept | fork => some accept
  | returned => none

/-- The handler is not running, is about to call `wait`, or is about to return. -/
inductive Handler
  | notRunning
  | wait
  | returning
deriving DecidableEq, Repr

structure Server where
  point : Point
  handler : Handler
  /-- `sigchld_handler` is the action of `SIGCHLD`. -/
  handled : Bool
  /-- A `SIGCHLD` is pending. -/
  pending : Bool
  children : Children ℕ

def start : Server where
  point := .sigfillset
  handler := .notRunning
  handled := false
  pending := false
  children := .none

inductive Action
  /-- The call that `main` is at succeeds. -/
  | succeed
  /-- The call that `main` is at fails. -/
  | fail
  /-- `fork` returns the new child's id to `main`. -/
  | fork (pid : ℕ)
  /-- A child terminates. -/
  | terminate (pid : ℕ)
  /-- The pending `SIGCHLD` is delivered. -/
  | deliver
  /-- `wait` reaps a child. -/
  | wait (pid : ℕ)
  /-- `wait` fails, because there is no child. -/
  | waitFails
  /-- The handler returns. -/
  | handlerReturns
deriving DecidableEq, Repr

/-- One step; `none` where the action is not possible. `wait` blocks while all children are
running. Without the handler a `SIGCHLD` is ignored. -/
def step (s : Server) : Action → Option Server
  | .succeed =>
      if s.handler = .notRunning then do
        let point ← s.point.succeeds
        return { s with point, handled := s.handled || s.point = .sigaction }
      else none
  | .fail =>
      if s.handler = .notRunning then do
        let point ← s.point.fails
        return { s with point }
      else none
  | .fork pid =>
      if s.handler = .notRunning ∧ s.point = .fork ∧ 0 < pid then do
        let children ← s.children.fork pid
        return { s with children, point := .accept }
      else none
  | .terminate pid => do
      let children ← s.children.terminate pid
      return { s with children, pending := s.pending || s.handled }
  | .deliver =>
      if s.pending = true ∧ s.handler = .notRunning then
        some { s with pending := false, handler := .wait }
      else none
  | .wait pid =>
      if s.handler = .wait then do
        let children ← s.children.reap pid
        return { s with children, handler := .returning }
      else none
  | .waitFails =>
      if s.handler = .wait ∧ s.children.running = ∅ ∧ s.children.zombies = ∅ then
        some { s with handler := .returning }
      else none
  | .handlerReturns =>
      if s.handler = .returning then some { s with handler := .notRunning } else none

/-- What the step function does. -/
inductive Step (s : Server) : Action → Server → Prop
  | succeed {point : Point} (hhandler : s.handler = .notRunning)
      (hpoint : s.point.succeeds = some point) :
      Step s .succeed { s with point, handled := s.handled || s.point = .sigaction }
  | fail {point : Point} (hhandler : s.handler = .notRunning)
      (hpoint : s.point.fails = some point) :
      Step s .fail { s with point }
  | fork {pid : ℕ} {children : Children ℕ} (hhandler : s.handler = .notRunning)
      (hpoint : s.point = .fork) (hpid : 0 < pid) (hfork : s.children.fork pid = some children) :
      Step s (.fork pid) { s with children, point := .accept }
  | terminate {pid : ℕ} {children : Children ℕ}
      (hterminate : s.children.terminate pid = some children) :
      Step s (.terminate pid) { s with children, pending := s.pending || s.handled }
  | deliver (hpending : s.pending = true) (hhandler : s.handler = .notRunning) :
      Step s .deliver { s with pending := false, handler := .wait }
  | wait {pid : ℕ} {children : Children ℕ} (hhandler : s.handler = .wait)
      (hreap : s.children.reap pid = some children) :
      Step s (.wait pid) { s with children, handler := .returning }
  | waitFails (hhandler : s.handler = .wait) (hrunning : s.children.running = ∅)
      (hzombies : s.children.zombies = ∅) :
      Step s .waitFails { s with handler := .returning }
  | handlerReturns (hhandler : s.handler = .returning) :
      Step s .handlerReturns { s with handler := .notRunning }

variable {s t : Server} {a : Action}

/-- The step function does nothing else. -/
theorem Step.of_step (h : step s a = some t) : Step s a t := by
  cases a with
  | succeed =>
      obtain ⟨hhandler, h⟩ := Option.ite_none_right_eq_some.mp h
      obtain ⟨point, hpoint, h⟩ := Option.bind_eq_some_iff.mp h
      cases h
      exact .succeed hhandler hpoint
  | fail =>
      obtain ⟨hhandler, h⟩ := Option.ite_none_right_eq_some.mp h
      obtain ⟨point, hpoint, h⟩ := Option.bind_eq_some_iff.mp h
      cases h
      exact .fail hhandler hpoint
  | fork pid =>
      obtain ⟨⟨hhandler, hpoint, hpid⟩, h⟩ := Option.ite_none_right_eq_some.mp h
      obtain ⟨children, hfork, h⟩ := Option.bind_eq_some_iff.mp h
      cases h
      exact .fork hhandler hpoint hpid hfork
  | terminate pid =>
      obtain ⟨children, hterminate, h⟩ := Option.bind_eq_some_iff.mp h
      cases h
      exact .terminate hterminate
  | deliver =>
      obtain ⟨⟨hpending, hhandler⟩, h⟩ := Option.ite_none_right_eq_some.mp h
      cases h
      exact .deliver hpending hhandler
  | wait pid =>
      obtain ⟨hhandler, h⟩ := Option.ite_none_right_eq_some.mp h
      obtain ⟨children, hreap, h⟩ := Option.bind_eq_some_iff.mp h
      cases h
      exact .wait hhandler hreap
  | waitFails =>
      obtain ⟨⟨hhandler, hrunning, hzombies⟩, h⟩ := Option.ite_none_right_eq_some.mp h
      cases h
      exact .waitFails hhandler hrunning hzombies
  | handlerReturns =>
      obtain ⟨hhandler, h⟩ := Option.ite_none_right_eq_some.mp h
      cases h
      exact .handlerReturns hhandler

/-- The run along the given actions. -/
def run (as : List Action) : Option Server := exec step as start

/-- No `SIGCHLD` is pending and the handler is not running. -/
def Server.Quiet (s : Server) : Prop := s.pending = false ∧ s.handler = .notRunning

instance (s : Server) : Decidable s.Quiet := inferInstanceAs (Decidable (_ ∧ _))

end Osh.ForkServer
