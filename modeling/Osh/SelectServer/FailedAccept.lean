import Mathlib.Data.Finset.Basic
import Osh.SelectServer.Invariant

/-!
# An accept that fails

When `accept` returns -1 the server prints a message and goes on with the statements after
it, as if a client had been accepted: `FD_SET(-1, &master)` is undefined. What should hold
over a run with failures in it, that they leave the descriptor sets alone and that `master`
has no members but the server's own socket and the open clients, then holds only of the runs
without a failure.

## Main definitions

* `openClients`: the clients accepted and not yet closed, from what was done to the outside.
* `AcceptFails`: the step is a call of `accept` that returns -1.

## Main results

* `step_owned`: a step that is defined keeps `master` at the socket and the open clients.
* `failures_harmless_iff`: the claim about runs, and when it holds.
-/
namespace Osh.SelectServer
open PartialRun

/-! ## Open clients -/

def openAfter (clients : FdSet) : Event → FdSet
  | .accept newfd => if newfd = -1 then clients else insert newfd.toNat clients
  | .close fd => clients.erase fd
  | .perror _ | .print _ | .readLine _ _ => clients

/-- The clients that have been accepted and not closed. -/
def openClients (events : List Event) : FdSet := events.foldl openAfter ∅

section
variable (FD_SETSIZE sFd : ℕ)

/-- `select` returns some of the descriptors in `master`, and `accept` fails or returns a new
descriptor that fits into a set. -/
def AllowedOrFails (s : Server) (env : Env) : Prop :=
  match s.point with
  | .select => env.ready ⊆ s.master
  | .scan i => i = sFd → i ∈ s.readFds → env.newfd = -1 ∨
      0 ≤ env.newfd ∧ env.newfd < FD_SETSIZE ∧ env.newfd.toNat ∉ s.master

/-- The step calls `accept`, which returns -1. -/
structure AcceptFails (s : Server) (env : Env) : Prop where
  point : s.point = .scan sFd
  inRange : sFd ≤ s.fdmax
  ready : sFd ∈ s.readFds
  failed : env.newfd = -1

/-- If the accept fails, the iteration leaves `master` and `fdmax` as they were. -/
def FailureHarmless (s : Server) (env : Env) : Prop :=
  AcceptFails sFd s env → ∃ t, step FD_SETSIZE sFd s env = some t ∧ t.master = s.master ∧
    t.fdmax = s.fdmax

end

section
variable {FD_SETSIZE sFd : ℕ} {s t : Server} {env : Env}

/-! ## One step -/

theorem acceptClient_failed : acceptClient FD_SETSIZE (-1) s = none := by
  simp [acceptClient, fdSet]

/-- A failed accept runs into `FD_SET(-1, &master)`. -/
theorem AcceptFails.step_eq_none (h : AcceptFails sFd s env) :
    step FD_SETSIZE sFd s env = none := by
  have hbody : scanBody FD_SETSIZE sFd sFd env s = none := by
    by_cases hlt : sFd < FD_SETSIZE
    · simp [scanBody, fdIsSet, hlt, h.ready, h.failed, acceptClient_failed]
    · simp [scanBody, fdIsSet, hlt]
  simp [step, h.point, h.inRange, hbody]

theorem master_of_acceptClient {newfd : ℤ} (h : acceptClient FD_SETSIZE newfd s = some t) :
    t.master = insert newfd.toNat s.master ∧ t.events = s.events ++ [.accept newfd] ∧
      newfd ≠ -1 := by
  by_cases hfit : 0 ≤ newfd ∧ newfd < FD_SETSIZE
  · obtain ⟨n, rfl⟩ := Int.eq_ofNat_of_zero_le hfit.1
    rw [acceptClient_eq (by omega)] at h
    obtain rfl := Option.some.inj h
    exact ⟨rfl, rfl, by omega⟩
  · simp [acceptClient, fdSet, hfit] at h

theorem master_of_serveClient {i : ℕ} {clientline : String}
    (h : serveClient FD_SETSIZE i clientline s = some t) :
    t.master = s.master.erase i ∧ t.events = s.events ++
      [.print "Hi, client\n", .readLine i clientline, .print clientline, .close i] := by
  obtain ⟨master, hmaster, h⟩ := Option.bind_eq_some_iff.mp h
  obtain ⟨-, hmaster⟩ := Option.ite_none_right_eq_some.mp hmaster
  obtain rfl := Option.some.inj hmaster
  by_cases hmax : i = s.fdmax
  · rw [if_pos hmax] at h
    obtain ⟨fdmax, -, h⟩ := Option.bind_eq_some_iff.mp h
    obtain rfl := Option.some.inj h
    exact ⟨rfl, rfl⟩
  · rw [if_neg hmax] at h
    obtain rfl := Option.some.inj h
    exact ⟨rfl, rfl⟩

/-- `master` has the server's own socket and the open clients. -/
def Owned (sFd : ℕ) (s : Server) : Prop := s.master = insert sFd (openClients s.events)

theorem Owned.accept (h : Owned sFd s) {newfd : ℤ}
    (ht : acceptClient FD_SETSIZE newfd s = some t) : Owned sFd t := by
  obtain ⟨hmaster, hevents, hne⟩ := master_of_acceptClient ht
  have hopen : openClients t.events = insert newfd.toNat (openClients s.events) := by
    simp [hevents, openClients, openAfter, hne]
  rw [Owned, hmaster, hopen, h, Finset.insert_comm]

theorem Owned.serve (h : Owned sFd s) {i : ℕ} (hi : i ≠ sFd) {clientline : String}
    (ht : serveClient FD_SETSIZE i clientline s = some t) : Owned sFd t := by
  obtain ⟨hmaster, hevents⟩ := master_of_serveClient ht
  have hopen : openClients t.events = (openClients s.events).erase i := by
    simp [hevents, openClients, openAfter]
  rw [Owned, hmaster, hopen, h, Finset.erase_insert_of_ne hi.symm]

theorem scanBody_owned (h : Owned sFd s) {i : ℕ}
    (ht : scanBody FD_SETSIZE sFd i env s = some t) : Owned sFd t := by
  obtain ⟨isSet, -, ht⟩ := Option.bind_eq_some_iff.mp ht
  cases isSet with
  | false =>
      obtain rfl : s = t := by simpa using ht
      exact h
  | true =>
      simp only [if_true] at ht
      by_cases hi : i = sFd
      · rw [if_pos hi] at ht
        exact h.accept ht
      · rw [if_neg hi] at ht
        exact h.serve hi ht

theorem step_owned (h : Owned sFd s) (ht : step FD_SETSIZE sFd s env = some t) :
    Owned sFd t := by
  unfold step at ht
  split at ht
  · obtain rfl := Option.some.inj ht
    exact h
  · split at ht
    · obtain ⟨u, hu, hut⟩ := Option.bind_eq_some_iff.mp ht
      obtain rfl := Option.some.inj hut
      have howned : Owned sFd u := scanBody_owned h hu
      exact howned
    · obtain rfl := Option.some.inj ht
      exact h

theorem owned_start (hstart : start FD_SETSIZE sFd = some s) : Owned sFd s := by
  obtain ⟨master, hmaster, hs⟩ := Option.bind_eq_some_iff.mp hstart
  obtain rfl := Option.some.inj hs
  obtain ⟨-, hmaster⟩ := Option.ite_none_right_eq_some.mp hmaster
  obtain rfl := Option.some.inj hmaster
  simp [Owned, openClients]

/-! ## Runs -/

theorem Descriptors.allowed (h : Descriptors FD_SETSIZE sFd s)
    (hallowed : AllowedOrFails FD_SETSIZE sFd s env) (hok : ¬ AcceptFails sFd s env) :
    Allowed FD_SETSIZE sFd s env := by
  cases hpoint : s.point with
  | select =>
      simp only [AllowedOrFails, hpoint] at hallowed
      simp only [Allowed, hpoint]
      exact hallowed
  | scan i =>
      simp only [AllowedOrFails, hpoint] at hallowed
      simp only [Allowed, hpoint]
      intro hi hready
      subst hi
      refine (hallowed rfl hready).resolve_left ?_
      exact fun hfailed => hok ⟨hpoint, h.sFd_le, hready, hfailed⟩

/-- **Runs with failed accepts.** In a run, whatever `select` and `accept` return, the failed
accepts leave `master` and `fdmax` as they were, the run goes on, and `master` ends with no
members but the server's own socket and clients accepted and not closed, if and only if no
accept of the run fails. -/
theorem failures_harmless_iff {s₀ : Server} (hstart : start FD_SETSIZE sFd = some s₀)
    {envs : List Env}
    (hallowed : Along (AllowedOrFails FD_SETSIZE sFd) (step FD_SETSIZE sFd) envs s₀) :
    (Along (FailureHarmless FD_SETSIZE sFd) (step FD_SETSIZE sFd) envs s₀ ∧
      ∃ t, exec (step FD_SETSIZE sFd) envs s₀ = some t ∧
        t.master ⊆ insert sFd (openClients t.events)) ↔
    Along (fun s env => ¬ AcceptFails sFd s env) (step FD_SETSIZE sFd) envs s₀ := by
  constructor
  · rintro ⟨hharmless, -⟩
    refine hharmless.mono fun s env _ hstep hfails => ?_
    obtain ⟨t, ht, -⟩ := hstep hfails
    rw [hfails.step_eq_none] at ht
    cases ht
  · intro hok
    refine ⟨hok.mono fun s env _ hnot hfails => absurd hfails hnot, ?_⟩
    have hstep : ∀ s env, Descriptors FD_SETSIZE sFd s ∧ Owned sFd s →
        AllowedOrFails FD_SETSIZE sFd s env ∧ ¬ AcceptFails sFd s env →
        ∃ t, step FD_SETSIZE sFd s env = some t ∧ Descriptors FD_SETSIZE sFd t ∧ Owned sFd t := by
      rintro s env ⟨h, howned⟩ ⟨hallowed, hnot⟩
      obtain ⟨t, ht, hkept⟩ := step_keeps s env h (h.allowed hallowed hnot)
      exact ⟨t, ht, hkept, step_owned howned ht⟩
    obtain ⟨t, ht, -, howned⟩ := exec_total _ hstep
      ⟨descriptors_start hstart, owned_start hstart⟩ (hallowed.and hok)
    exact ⟨t, ht, howned.subset⟩

end

/-- A client is waiting, and the accept fails. -/
def failingAccept : List Env := ⟨{3}, -1, ""⟩ :: List.replicate 4 ⟨∅, -1, ""⟩

theorem allowedOrFails_failingAccept :
    Along (AllowedOrFails 1024 3) (step 1024 3) failingAccept listening := by
  refine ⟨Finset.Subset.refl _, ?_⟩
  refine fun s _ => Along.of_forall fun t env henv => ?_
  have henv' : env = ⟨∅, -1, ""⟩ := List.eq_of_mem_replicate henv
  subst henv'
  unfold AllowedOrFails
  split
  · exact Finset.empty_subset _
  · exact fun _ _ => .inl rfl

/-- The failed accept is the end of a defined run. -/
theorem failed_accept_undefined :
    ¬ ∀ envs, Along (AllowedOrFails 1024 3) (step 1024 3) envs listening →
      Along (FailureHarmless 1024 3) (step 1024 3) envs listening ∧
        ∃ t, exec (step 1024 3) envs listening = some t ∧
          t.master ⊆ insert 3 (openClients t.events) := by
  intro hclaim
  obtain ⟨-, t, ht, -⟩ := hclaim failingAccept allowedOrFails_failingAccept
  have hnone : (exec (step 1024 3) failingAccept listening).isNone = true := by decide
  rw [ht] at hnone
  cases hnone

theorem failures_harmless_iff_failingAccept :
    (Along (FailureHarmless 1024 3) (step 1024 3) failingAccept listening ∧
      ∃ t, exec (step 1024 3) failingAccept listening = some t ∧
        t.master ⊆ insert 3 (openClients t.events)) ↔
    Along (fun s env => ¬ AcceptFails 3 s env) (step 1024 3) failingAccept listening :=
  failures_harmless_iff rfl allowedOrFails_failingAccept

end Osh.SelectServer
