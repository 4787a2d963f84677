import Osh.ForkServer.Server

/-!
# Zombies of the fork server

A delivered signal reaps one child, so the zombies that a pending signal or a started handler
stands for are on their way out. A child that terminates while a signal is pending adds a
zombie and no signal: nothing reaps it later, since every later signal has a zombie of its
own to reap.

## Main definitions

* `Installed`: there are children only after the handler has been set.
* `waits`: the calls of `wait` that are still to come.
* `leftOver`: the zombies beyond these.
* `NotMerged`: the step does not merge two terminations into one signal.
-/
namespace Osh.ForkServer
open PartialRun

/-- The handler has been set, or `main` has not come that far and has no children. -/
def Installed (s : Server) : Prop :=
  s.handled = true ∨ s.children = .none ∧ s.point ∈ [.sigfillset, .sigaction, .returned]

/-- The calls of `wait` that are still to come for the signals raised so far. -/
def Server.waits (s : Server) : ℕ :=
  (if s.pending = true then 1 else 0) + if s.handler = .wait then 1 else 0

/-- The zombies that no signal stands for. -/
def Server.leftOver (s : Server) : ℕ := s.children.zombies.card - s.waits

/-- If a child terminates in this step, no `SIGCHLD` is pending. -/
def NotMerged (s : Server) (a : Action) : Prop := ∀ pid, a = .terminate pid → s.pending = false

variable {s t : Server} {a : Action} {as : List Action} {pid : ℕ}

theorem not_terminate_none : (Children.none : Children ℕ).terminate pid = none := rfl

theorem not_reap_none : (Children.none : Children ℕ).reap pid = none := rfl

theorem Step.installed (hstep : Step s a t) (h : Installed s) : Installed t := by
  rcases h with hhandled | ⟨hnone, hpoint⟩
  · -- the action of the signal is never reset
    left
    cases hstep with
    | succeed => exact Bool.or_eq_true_iff.mpr (.inl hhandled)
    | fail | fork | terminate | deliver | wait | waitFails | handlerReturns => exact hhandled
  · simp only [List.mem_cons, List.not_mem_nil, or_false] at hpoint
    cases hstep with
    | succeed _ hnext =>
        rcases hpoint with hpoint | hpoint | hpoint <;> rw [hpoint] at hnext <;> cases hnext
        · exact .inr ⟨hnone, by simp⟩
        · exact .inl (by simp [hpoint])
    | fail _ hnext =>
        right
        rcases hpoint with hpoint | hpoint | hpoint <;> rw [hpoint] at hnext <;> cases hnext
        · exact ⟨hnone, by simp⟩
        · exact ⟨hnone, by simp⟩
    | fork _ hfork =>
        rcases hpoint with hpoint | hpoint | hpoint <;> rw [hpoint] at hfork <;> cases hfork
    | terminate hterminate =>
        rw [hnone, not_terminate_none] at hterminate
        cases hterminate
    | wait _ hreap =>
        rw [hnone, not_reap_none] at hreap
        cases hreap
    | deliver | waitFails | handlerReturns => exact .inr ⟨hnone, by simpa using hpoint⟩

/-- A termination adds a zombie, and a signal unless one is pending. -/
theorem Step.terminated (hstep : Step s (.terminate pid) t) (hinstalled : Installed s) :
    t.children.zombies.card = s.children.zombies.card + 1 ∧
      t.waits = if s.pending = true then s.waits else s.waits + 1 := by
  cases hstep with
  | terminate hterminate =>
      have hhandled : s.handled = true := by
        refine hinstalled.resolve_right ?_
        rintro ⟨hnone, -⟩
        rw [hnone, not_terminate_none] at hterminate
        cases hterminate
      refine ⟨Children.card_zombies_of_terminate hterminate, ?_⟩
      cases hpending : s.pending <;> simp [Server.waits, hhandled, hpending, Nat.add_comm]

/-- Every other step has as many zombies reaped as it takes signals off. -/
theorem Step.reaped (hstep : Step s a t) (hne : ∀ pid, a ≠ .terminate pid)
    (h : s.waits ≤ s.children.zombies.card) :
    ∃ k, t.waits + k = s.waits ∧
      t.children.zombies.card + k = s.children.zombies.card := by
  cases hstep with
  | succeed | fail => exact ⟨0, rfl, rfl⟩
  | fork _ _ _ hfork => exact ⟨0, rfl, congrArg Finset.card (Children.zombies_of_fork hfork)⟩
  | @terminate pid => exact absurd rfl (hne pid)
  | deliver hpending hhandler => exact ⟨0, by simp [Server.waits, hpending, hhandler], rfl⟩
  | wait hhandler hreap =>
      exact ⟨1, by simp [Server.waits, hhandler], Children.card_zombies_of_reap hreap⟩
  | waitFails hhandler _ hzombies =>
      -- `wait` is only called when there is a zombie to reap
      rw [hzombies, Finset.card_empty] at h
      simp only [Server.waits, hhandler, if_true] at h
      omega
  | handlerReturns hhandler => exact ⟨0, by simp [Server.waits, hhandler], rfl⟩

/-- Every `wait` that is still to come finds a zombie, and the zombies left over are those of
children that terminate while a signal is pending. -/
theorem Step.leftOver (hstep : Step s a t) (hinstalled : Installed s)
    (h : s.waits ≤ s.children.zombies.card) :
    t.waits ≤ t.children.zombies.card ∧ s.leftOver ≤ t.leftOver ∧
      (NotMerged s a ↔ t.leftOver = s.leftOver) := by
  by_cases hterminate : ∃ pid, a = .terminate pid
  · obtain ⟨pid, rfl⟩ := hterminate
    obtain ⟨hcard, hwaits⟩ := hstep.terminated hinstalled
    have hmerged : NotMerged s (.terminate pid) ↔ ¬ s.pending = true := by
      simp [NotMerged]
    rw [hmerged, Server.leftOver, Server.leftOver, hcard, hwaits]
    by_cases hpending : s.pending = true
    · rw [if_pos hpending]
      exact ⟨by omega, by omega, iff_of_false (not_not.mpr hpending) (by omega)⟩
    · rw [if_neg hpending]
      exact ⟨by omega, by omega, iff_of_true hpending (by omega)⟩
  · obtain ⟨k, hwaits, hcard⟩ := hstep.reaped (fun pid ha => hterminate ⟨pid, ha⟩) h
    have hleft : t.leftOver = s.leftOver := by
      simp only [Server.leftOver]
      omega
    refine ⟨by omega, hleft.ge, iff_of_true ?_ hleft⟩
    intro pid ha
    exact absurd ⟨pid, ha⟩ hterminate

/-- **No zombie is left behind** in a state without a signal, if and only if on the way there no
child has terminated while a signal was pending. -/
theorem zombies_eq_empty_iff (h : run as = some s) (hquiet : s.Quiet) :
    s.children.zombies = ∅ ↔ Along NotMerged step as start := by
  have hinit : Installed start ∧ start.waits ≤ start.children.zombies.card :=
    ⟨.inr ⟨rfl, by decide⟩, Nat.le_refl 0⟩
  obtain ⟨-, -, halong⟩ := along_iff_of_measure
    (fun s => Installed s ∧ s.waits ≤ s.children.zombies.card) Server.leftOver
    (by
      rintro s a t ⟨hinstalled, hwaits⟩ hst
      have hstep := Step.of_step hst
      obtain ⟨hwaits', hleft⟩ := hstep.leftOver hinstalled hwaits
      exact ⟨⟨hstep.installed hinstalled, hwaits'⟩, hleft⟩)
    hinit h
  have hstart : start.leftOver = 0 := rfl
  have hleft : s.leftOver = s.children.zombies.card := by
    simp [Server.leftOver, Server.waits, hquiet.1, hquiet.2]
  rw [halong, hleft, hstart, Finset.card_eq_zero]

/-! Two clients, whose children end one after the other or at once. -/

/-- `main` has forked a child for each of two clients. -/
def twoClients : List Action :=
  [.succeed, .succeed, .succeed, .succeed, .succeed, .succeed, .succeed, .fork 1, .succeed,
    .fork 2]

instance (s : Server) (a : Action) : Decidable (NotMerged s a) :=
  match a with
  | .terminate pid => decidable_of_iff (s.pending = false) (by simp [NotMerged])
  | .succeed | .fail | .fork _ | .deliver | .wait _ | .waitFails | .handlerReturns =>
      .isTrue fun _ h => by cases h

/-- The second child terminates when the signal of the first one has been delivered. -/
def inTurn : List Action :=
  [.terminate 1, .deliver, .terminate 2, .wait 1, .handlerReturns, .deliver, .wait 2,
    .handlerReturns]

theorem zombies_eq_empty_iff_inTurn :
    ∃ s, run (twoClients ++ inTurn) = some s ∧ s.Quiet ∧ s.children.zombies = ∅ := by
  have hrun : ∃ s ∈ run (twoClients ++ inTurn), s.Quiet := by decide
  obtain ⟨s, hs, hquiet⟩ := hrun
  exact ⟨s, hs, hquiet, (zombies_eq_empty_iff hs hquiet).mpr (by decide)⟩

/-- Both children terminate before the signal of the first one is delivered. -/
def atOnce : List Action := [.terminate 1, .terminate 2, .deliver, .wait 1, .handlerReturns]

theorem zombie_left_behind :
    ∃ s, run (twoClients ++ atOnce) = some s ∧ s.Quiet ∧ s.children.zombies = {2} := by
  have hrun : ∃ s ∈ run (twoClients ++ atOnce), s.Quiet ∧ s.children.zombies = {2} := by decide
  obtain ⟨s, hs, h⟩ := hrun
  exact ⟨s, hs, h⟩

end Osh.ForkServer
