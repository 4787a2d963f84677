import Mathlib.Data.Finset.Insert
import Mathlib.Data.Finset.Erase
import Osh.Lib.PartialRun

/-!
# The select server

The main loop of `TCPserverSelectHi.c` as a step function on its variables. A step is one
call of `select`, or one iteration of the scan, or the end of a scan. What the kernel and
the clients do is an input of the step: the ready descriptors, the descriptor that `accept`
returns, and the line that a client sends. Operations on a descriptor set are undefined for
descriptors outside `0, …, FD_SETSIZE - 1`, and a step that runs into one has no result.

## Main definitions

* `fdSet`, `fdClr`, `fdIsSet`: the operations on descriptor sets.
* `lowerFdmax`: the loop that lowers `fdmax` after a close.
* `Server`, `step`: the variables with the program point, and one step.
* `Allowed`: what `select` and `accept` are assumed to return.
-/
namespace Osh.SelectServer
open PartialRun

abbrev FdSet := Finset ℕ

section
variable (FD_SETSIZE : ℕ)

/-- `FD_SET(fd, &set)` -/
def fdSet (fd : ℤ) (set : FdSet) : Option FdSet :=
  if 0 ≤ fd ∧ fd < FD_SETSIZE then some (insert fd.toNat set) else none

/-- `FD_CLR(fd, &set)` -/
def fdClr (fd : ℕ) (set : FdSet) : Option FdSet :=
  if fd < FD_SETSIZE then some (set.erase fd) else none

/-- `FD_ISSET(fd, &set)` -/
def fdIsSet (fd : ℕ) (set : FdSet) : Option Bool :=
  if fd < FD_SETSIZE then some (decide (fd ∈ set)) else none

/-- The loop that decrements `fdmax` until it is in `master`. Below 0 the test is undefined. -/
def lowerFdmax (master : FdSet) : ℕ → Option ℕ
  | 0 => do if ← fdIsSet FD_SETSIZE 0 master then some 0 else none
  | fdmax + 1 => do
      if ← fdIsSet FD_SETSIZE (fdmax + 1) master then some (fdmax + 1)
      else lowerFdmax master fdmax

end

/-- Before the call of `select`, or before the test `i <= fdmax` of the scan. -/
inductive Point where
  | select
  | scan (i : ℕ)

/-- What an iteration does to the outside. -/
inductive Event where
  | accept (newfd : ℤ)
  | perror (text : String)
  | print (text : String)
  | readLine (fd : ℕ) (clientline : String)
  | close (fd : ℕ)

structure Server where
  master : FdSet
  readFds : FdSet
  fdmax : ℕ
  point : Point
  events : List Event

/-- What the kernel and a client do, as far as a step asks for it. -/
structure Env where
  /-- The descriptors that `select` leaves in `read_fds`. -/
  ready : FdSet
  /-- The result of `accept`. -/
  newfd : ℤ
  /-- The line that the client sends. -/
  clientline : String

section
variable (FD_SETSIZE sFd : ℕ)

/-- The statements before the main loop. -/
def start : Option Server := do
  let master ← fdSet FD_SETSIZE sFd ∅
  return { master, readFds := ∅, fdmax := sFd, point := .select, events := [] }

/-- The branch of the scan for the server's own socket. -/
def acceptClient (newfd : ℤ) (s : Server) : Option Server := do
  let master ← fdSet FD_SETSIZE newfd s.master
  return { s with
    master
    fdmax := if newfd > s.fdmax then newfd.toNat else s.fdmax
    events := s.events ++ .accept newfd :: if newfd = -1 then [.perror "accept"] else [] }

/-- The branch of the scan for a client's socket. -/
def serveClient (i : ℕ) (clientline : String) (s : Server) : Option Server := do
  let master ← fdClr FD_SETSIZE i s.master
  let fdmax ← if i = s.fdmax then lowerFdmax FD_SETSIZE master s.fdmax else some s.fdmax
  return { s with
    master, fdmax
    events := s.events ++
      [.print "Hi, client\n", .readLine i clientline, .print clientline, .close i] }

/-- The body of the scan. -/
def scanBody (i : ℕ) (env : Env) (s : Server) : Option Server := do
  if ← fdIsSet FD_SETSIZE i s.readFds then
    if i = sFd then acceptClient FD_SETSIZE env.newfd s
    else serveClient FD_SETSIZE i env.clientline s
  else some s

def step (s : Server) (env : Env) : Option Server :=
  match s.point with
  | .select => some { s with readFds := env.ready, point := .scan 0 }
  | .scan i =>
      if i ≤ s.fdmax then do
        let s ← scanBody FD_SETSIZE sFd i env s
        return { s with point := .scan (i + 1) }
      else some { s with point := .select }

/-- `select` returns some of the descriptors in `master`, and `accept` a new descriptor that
fits into a set. -/
def Allowed (s : Server) (env : Env) : Prop :=
  match s.point with
  | .select => env.ready ⊆ s.master
  | .scan i => i = sFd → i ∈ s.readFds →
      0 ≤ env.newfd ∧ env.newfd < FD_SETSIZE ∧ env.newfd.toNat ∉ s.master

instance (s : Server) (env : Env) : Decidable (Allowed FD_SETSIZE sFd s env) :=
  match s with
  | ⟨master, _, _, .select, _⟩ => inferInstanceAs (Decidable (env.ready ⊆ master))
  | ⟨master, readFds, _, .scan i, _⟩ =>
      inferInstanceAs (Decidable (i = sFd → i ∈ readFds →
        0 ≤ env.newfd ∧ env.newfd < FD_SETSIZE ∧ env.newfd.toNat ∉ master))

end
end Osh.SelectServer
