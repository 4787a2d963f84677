import Mathlib.Order.Bounds.Basic
import Osh.SelectServer.Server

/-!
# The descriptor sets of the select server

The server's own socket stays in `master` and `fdmax` stays its greatest member, across
accepts and closes in any order. The closing branch depends on it: the loop that lowers
`fdmax` has no other bound than a member of `master` below it, and the server's own socket
is one.

## Main results

* `lowerFdmax_spec`: where the lowering loop stops.
* `acceptClient_eq`, `serveClient_eq`: what the two branches of the scan do.
* `descriptors_kept`: the invariant, along every run.
-/
namespace Osh.SelectServer
open PartialRun

section
variable {FD_SETSIZE sFd : ℕ} {s : Server}

/-! ## The lowering loop -/

/-- The loop stops at the greatest member that is not above its start, if there is one. -/
theorem lowerFdmax_spec {master : FdSet} {m n : ℕ} (hm : m ∈ master) (hle : m ≤ n)
    (hn : n < FD_SETSIZE) :
    ∃ fd, lowerFdmax FD_SETSIZE master n = some fd ∧ IsGreatest {k | k ∈ master ∧ k ≤ n} fd := by
  induction n with
  | zero =>
      obtain rfl : m = 0 := by omega
      refine ⟨0, ?_, ⟨hm, le_rfl⟩, fun k hk => hk.2⟩
      simp [lowerFdmax, fdIsSet, hn, hm]
  | succ n ih =>
      by_cases hmem : n + 1 ∈ master
      · refine ⟨n + 1, ?_, ⟨hmem, le_rfl⟩, fun k hk => hk.2⟩
        simp [lowerFdmax, fdIsSet, hn, hmem]
      · have hne : m ≠ n + 1 := fun h => hmem (h ▸ hm)
        obtain ⟨fd, hfd, hgreatest⟩ := ih (by omega) (by omega)
        refine ⟨fd, ?_, ⟨hgreatest.1.1, hgreatest.1.2.trans (Nat.le_succ n)⟩, ?_⟩
        · simpa [lowerFdmax, fdIsSet, hn, hmem] using hfd
        · rintro k ⟨hk, hkn⟩
          have hk' : k ≠ n + 1 := fun h => hmem (h ▸ hk)
          exact hgreatest.2 ⟨hk, by omega⟩

/-! ## The branches of the scan -/

variable (FD_SETSIZE sFd) in
/-- The invariant of the main loop. -/
structure Descriptors (s : Server) : Prop where
  sFd_mem : sFd ∈ s.master
  fdmax_greatest : IsGreatest (s.master : Set ℕ) s.fdmax
  fdmax_lt : s.fdmax < FD_SETSIZE

theorem Descriptors.mem_le (h : Descriptors FD_SETSIZE sFd s) {fd : ℕ} (hfd : fd ∈ s.master) :
    fd ≤ s.fdmax :=
  h.fdmax_greatest.2 hfd

theorem Descriptors.sFd_le (h : Descriptors FD_SETSIZE sFd s) : sFd ≤ s.fdmax :=
  h.mem_le h.sFd_mem

/-- The invariant says nothing of the program point, of `read_fds` and of the events. -/
theorem Descriptors.congr (h : Descriptors FD_SETSIZE sFd s) {t : Server}
    (hmaster : t.master = s.master) (hfdmax : t.fdmax = s.fdmax) :
    Descriptors FD_SETSIZE sFd t where
  sFd_mem := hmaster ▸ h.sFd_mem
  fdmax_greatest := by
    rw [hmaster, hfdmax]
    exact h.fdmax_greatest
  fdmax_lt := hfdmax ▸ h.fdmax_lt

theorem descriptors_start (hstart : start FD_SETSIZE sFd = some s) :
    Descriptors FD_SETSIZE sFd s := by
  have hlt : sFd < FD_SETSIZE := by
    by_contra hge
    simp [start, fdSet, hge] at hstart
  obtain rfl : { master := {sFd}, readFds := ∅, fdmax := sFd, point := .select, events := [] } =
      s := by
    simpa [start, fdSet, hlt] using hstart
  refine ⟨by simp, ?_, hlt⟩
  simp

theorem acceptClient_eq {newfd : ℕ} (hnew : newfd < FD_SETSIZE) :
    acceptClient FD_SETSIZE newfd s = some { s with
      master := insert newfd s.master
      fdmax := max s.fdmax newfd
      events := s.events ++ [.accept newfd] } := by
  have hne : (newfd : ℤ) ≠ -1 := by omega
  have hmax : (if s.fdmax < newfd then newfd else s.fdmax) = max s.fdmax newfd := by
    split <;> omega
  simp [acceptClient, fdSet, hnew, hne, hmax]

theorem Descriptors.accept (h : Descriptors FD_SETSIZE sFd s) {newfd : ℕ}
    (hnew : newfd < FD_SETSIZE) (events : List Event) :
    Descriptors FD_SETSIZE sFd { s with
      master := insert newfd s.master, fdmax := max s.fdmax newfd, events } where
  sFd_mem := Finset.mem_insert_of_mem h.sFd_mem
  fdmax_greatest := by
    simpa [max_comm] using h.fdmax_greatest.insert newfd
  fdmax_lt := max_lt h.fdmax_lt hnew

/-- A close in the scan. `fdmax` ends at the greatest descriptor left. -/
theorem serveClient_eq (h : Descriptors FD_SETSIZE sFd s) {i : ℕ} (hi : i ≤ s.fdmax)
    (hne : i ≠ sFd) (clientline : String) :
    ∃ fd, IsGreatest (s.master.erase i : Set ℕ) fd ∧
      serveClient FD_SETSIZE i clientline s = some { s with
        master := s.master.erase i
        fdmax := fd
        events := s.events ++
          [.print "Hi, client\n", .readLine i clientline, .print clientline, .close i] } := by
  have hclr : fdClr FD_SETSIZE i s.master = some (s.master.erase i) :=
    if_pos (lt_of_le_of_lt hi h.fdmax_lt)
  by_cases hmax : i = s.fdmax
  · have hmem : sFd ∈ s.master.erase i := Finset.mem_erase.mpr ⟨hne.symm, h.sFd_mem⟩
    obtain ⟨fd, hfd, hgreatest⟩ := lowerFdmax_spec hmem h.sFd_le h.fdmax_lt
    refine ⟨fd, ⟨hgreatest.1.1, ?_⟩, ?_⟩
    · intro k hk
      exact hgreatest.2 ⟨hk, h.mem_le (Finset.mem_of_mem_erase hk)⟩
    · simp [serveClient, hclr, if_pos hmax, hfd]
  · refine ⟨s.fdmax, ⟨?_, ?_⟩, ?_⟩
    · exact Finset.mem_erase.mpr ⟨Ne.symm hmax, h.fdmax_greatest.1⟩
    · intro k hk
      exact h.mem_le (Finset.mem_of_mem_erase hk)
    · simp [serveClient, hclr, if_neg hmax]

theorem Descriptors.close (h : Descriptors FD_SETSIZE sFd s) {i fd : ℕ} (hne : i ≠ sFd)
    (hfd : IsGreatest (s.master.erase i : Set ℕ) fd) (events : List Event) :
    Descriptors FD_SETSIZE sFd { s with master := s.master.erase i, fdmax := fd, events } where
  sFd_mem := Finset.mem_erase.mpr ⟨hne.symm, h.sFd_mem⟩
  fdmax_greatest := hfd
  fdmax_lt := lt_of_le_of_lt (h.mem_le (Finset.mem_of_mem_erase hfd.1)) h.fdmax_lt

/-! ## Runs -/

theorem scanBody_eq (h : Descriptors FD_SETSIZE sFd s) {i : ℕ} (hi : i ≤ s.fdmax) (env : Env) :
    scanBody FD_SETSIZE sFd i env s =
      if i ∈ s.readFds then
        if i = sFd then acceptClient FD_SETSIZE env.newfd s
        else serveClient FD_SETSIZE i env.clientline s
      else some s := by
  have hset : fdIsSet FD_SETSIZE i s.readFds = some (decide (i ∈ s.readFds)) :=
    if_pos (lt_of_le_of_lt hi h.fdmax_lt)
  by_cases hmem : i ∈ s.readFds <;> simp [scanBody, hset, hmem]

theorem scanBody_keeps (h : Descriptors FD_SETSIZE sFd s) {env : Env} {i : ℕ} (hi : i ≤ s.fdmax)
    (hnew : i = sFd → i ∈ s.readFds →
      0 ≤ env.newfd ∧ env.newfd < FD_SETSIZE ∧ env.newfd.toNat ∉ s.master) :
    ∃ t, scanBody FD_SETSIZE sFd i env s = some t ∧ Descriptors FD_SETSIZE sFd t := by
  rw [scanBody_eq h hi]
  by_cases hmem : i ∈ s.readFds
  · rw [if_pos hmem]
    by_cases hs : i = sFd
    · rw [if_pos hs]
      obtain ⟨hnonneg, hlt, _⟩ := hnew hs hmem
      obtain ⟨newfd, hnewfd⟩ := Int.eq_ofNat_of_zero_le hnonneg
      have hlt' : newfd < FD_SETSIZE := by omega
      rw [hnewfd]
      exact ⟨_, acceptClient_eq hlt', h.accept hlt' _⟩
    · rw [if_neg hs]
      obtain ⟨fd, hgreatest, heq⟩ := serveClient_eq h hi hs env.clientline
      exact ⟨_, heq, h.close hs hgreatest _⟩
  · exact ⟨s, if_neg hmem, h⟩

/-- No step that the kernel may cause runs into an undefined operation, and each keeps the
invariant. -/
theorem step_keeps (s : Server) (env : Env) (h : Descriptors FD_SETSIZE sFd s)
    (hallowed : Allowed FD_SETSIZE sFd s env) :
    ∃ t, step FD_SETSIZE sFd s env = some t ∧ Descriptors FD_SETSIZE sFd t := by
  unfold step
  cases hpoint : s.point with
  | select => exact ⟨_, rfl, h.congr rfl rfl⟩
  | scan i =>
      by_cases hi : i ≤ s.fdmax
      · simp only [Allowed, hpoint] at hallowed
        obtain ⟨t, ht, hkept⟩ := scanBody_keeps h hi hallowed
        refine ⟨{ t with point := .scan (i + 1) }, ?_, hkept.congr rfl rfl⟩
        simp [hi, ht]
      · exact ⟨_, if_neg hi, h.congr rfl rfl⟩

/-- **The descriptor sets are sound along every run.** Whatever the ready sets, the clients
and the accepted descriptors, the run goes on, and in the state it reaches the server's own
socket is in `master` and `fdmax` is the greatest member. A close of the highest descriptor
then stops at a member that is not below the server's own socket. -/
theorem descriptors_kept {s₀ : Server} (hstart : start FD_SETSIZE sFd = some s₀)
    {envs : List Env} (hallowed : Along (Allowed FD_SETSIZE sFd) (step FD_SETSIZE sFd) envs s₀) :
    ∃ t, exec (step FD_SETSIZE sFd) envs s₀ = some t ∧ sFd ∈ t.master ∧
      IsGreatest (t.master : Set ℕ) t.fdmax ∧
      ∀ i, t.point = .scan i → i ∈ t.readFds → i ≠ sFd → i = t.fdmax →
        ∃ fd, lowerFdmax FD_SETSIZE (t.master.erase i) t.fdmax = some fd ∧
          fd ∈ t.master.erase i ∧ sFd ≤ fd := by
  obtain ⟨t, ht, h⟩ := exec_total (Descriptors FD_SETSIZE sFd) step_keeps
    (descriptors_start hstart) hallowed
  refine ⟨t, ht, h.sFd_mem, h.fdmax_greatest, ?_⟩
  intro i _ _ hne hi
  have hmem : sFd ∈ t.master.erase i := Finset.mem_erase.mpr ⟨hne.symm, h.sFd_mem⟩
  obtain ⟨fd, hfd, hgreatest⟩ := lowerFdmax_spec hmem h.sFd_le h.fdmax_lt
  exact ⟨fd, hfd, hgreatest.1.1, hgreatest.2 ⟨hmem, h.sFd_le⟩⟩

end

/-- The state before the main loop, with the server's own socket at 3. -/
def listening : Server :=
  { master := {3}, readFds := ∅, fdmax := 3, point := .select, events := [] }

/-- A client connects at 4, and the next scan reaches it. -/
def connectThenSend : List Env :=
  ⟨{3}, -1, ""⟩ :: List.replicate 6 ⟨∅, 4, ""⟩ ++
    ⟨{4}, -1, ""⟩ :: List.replicate 4 ⟨∅, -1, "hello\n"⟩

theorem descriptors_kept_connectThenSend :
    ∃ t, exec (step 1024 3) connectThenSend listening = some t ∧ 3 ∈ t.master ∧
      IsGreatest (t.master : Set ℕ) t.fdmax ∧
      ∀ i, t.point = .scan i → i ∈ t.readFds → i ≠ 3 → i = t.fdmax →
        ∃ fd, lowerFdmax 1024 (t.master.erase i) t.fdmax = some fd ∧
          fd ∈ t.master.erase i ∧ 3 ≤ fd :=
  descriptors_kept rfl (by decide)

end Osh.SelectServer
