import Mathlib.Data.Finset.Sort
import Osh.SelectServer.Invariant

/-!
# One scan of the select server

The scan runs over the descriptors from 0 to `fdmax`, and `fdmax` moves under it: an accept
raises it, the close of the highest descriptor lowers it. What is ready and not yet reached
is in `master` all the same, hence below `fdmax`, and a descriptor that is accepted is none
of these. So each ready descriptor has its turn once, in ascending order.

## Main definitions

* `handled`: what the scan does with a ready descriptor.
* `Scanning`: the state before iteration `i` of the scan.

## Main results

* `scanning_step`: one iteration.
* `scan_serves_once`: the whole scan.
-/
namespace Osh.SelectServer
open PartialRun

section
variable (FD_SETSIZE sFd : ℕ)

/-- What the scan does with a ready descriptor: an accept, or a line read and a close. -/
def handled (env : ℕ → Env) (fd : ℕ) : List Event :=
  if fd = sFd then [.accept (env fd).newfd]
  else [.print "Hi, client\n", .readLine fd (env fd).clientline, .print (env fd).clientline,
    .close fd]

/-- The ready descriptors below `i`, in ascending order. -/
def readyBelow (ready : FdSet) (i : ℕ) : List ℕ := (List.range i).filter (· ∈ ready)

/-- The clients served before iteration `i`. -/
def served (ready : FdSet) (i : ℕ) : FdSet := {fd ∈ ready | fd < i ∧ fd ≠ sFd}

/-- The descriptor accepted before iteration `i`, if there is one. -/
def accepted (ready : FdSet) (env : ℕ → Env) (i : ℕ) : FdSet :=
  if sFd ∈ ready ∧ sFd < i then {(env sFd).newfd.toNat} else ∅

/-- The state before iteration `i` of a scan that began in `s` with the given descriptors
ready. -/
structure Scanning (s : Server) (ready : FdSet) (env : ℕ → Env) (i : ℕ) (t : Server) : Prop where
  descriptors : Descriptors FD_SETSIZE sFd t
  point : t.point = .scan i
  bound : i ≤ FD_SETSIZE
  readFds : t.readFds = ready
  master : t.master = (s.master \ served sFd ready i) ∪ accepted sFd ready env i
  accepted_fresh : ∀ fd ∈ ready, i ≤ fd → fd ∉ accepted sFd ready env i
  events : t.events = s.events ++ (readyBelow ready i).flatMap (handled sFd env)

end

section
variable {FD_SETSIZE sFd : ℕ} {s t : Server} {ready : FdSet} {env : ℕ → Env} {i : ℕ}

/-! ## The ready descriptors in order -/

theorem readyBelow_succ_of_mem (h : i ∈ ready) :
    readyBelow ready (i + 1) = readyBelow ready i ++ [i] := by
  simp [readyBelow, List.range_succ, h]

theorem readyBelow_succ_of_notMem (h : i ∉ ready) :
    readyBelow ready (i + 1) = readyBelow ready i := by
  simp [readyBelow, List.range_succ, h]

/-- Once all are below `i` they are the ready descriptors, sorted. -/
theorem readyBelow_eq_sort (h : ∀ fd ∈ ready, fd < i) :
    readyBelow ready i = ready.sort (· ≤ ·) := by
  have hmem : (readyBelow ready i).toFinset = ready := by
    ext fd
    simp only [readyBelow, List.toFinset_filter, Finset.mem_filter, List.mem_toFinset,
      List.mem_range, decide_eq_true_eq]
    exact ⟨And.right, fun hfd => ⟨h fd hfd, hfd⟩⟩
  have hsorted : (readyBelow ready i).Pairwise (· ≤ ·) := by
    refine List.Pairwise.filter _ (List.pairwise_lt_range.imp ?_)
    intro a b hab
    exact Nat.le_of_lt hab
  have hnodup : (readyBelow ready i).Nodup := List.nodup_range.filter _
  rw [← (List.toFinset_sort (· ≤ ·) hnodup).mpr hsorted, hmem]

/-! ## One iteration -/

theorem mem_served {fd : ℕ} : fd ∈ served sFd ready i ↔ fd ∈ ready ∧ fd < i ∧ fd ≠ sFd := by
  rw [served, Finset.mem_filter]

theorem served_succ_of_client (h : i ∈ ready) (hne : i ≠ sFd) :
    served sFd ready (i + 1) = insert i (served sFd ready i) := by
  ext fd
  simp only [mem_served, Finset.mem_insert]
  constructor
  · rintro ⟨hfd, hlt, hs⟩
    by_cases hi : fd = i
    · exact .inl hi
    · exact .inr ⟨hfd, by omega, hs⟩
  · rintro (rfl | ⟨hfd, hlt, hs⟩)
    · exact ⟨h, Nat.lt_succ_self fd, hne⟩
    · exact ⟨hfd, by omega, hs⟩

theorem served_succ_of_other (h : i ∉ ready ∨ i = sFd) :
    served sFd ready (i + 1) = served sFd ready i := by
  ext fd
  simp only [mem_served]
  constructor
  · rintro ⟨hfd, hlt, hs⟩
    have hne : fd ≠ i := by
      rintro rfl
      exact h.elim (· hfd) hs
    exact ⟨hfd, by omega, hs⟩
  · rintro ⟨hfd, hlt, hs⟩
    exact ⟨hfd, by omega, hs⟩

theorem accepted_succ (h : i ∉ ready ∨ i ≠ sFd) :
    accepted sFd ready env (i + 1) = accepted sFd ready env i := by
  have hiff : (sFd ∈ ready ∧ sFd < i + 1) ↔ (sFd ∈ ready ∧ sFd < i) := by
    refine and_congr_right fun hs => ?_
    have hne : sFd ≠ i := by
      rintro rfl
      exact h.elim (· hs) (· rfl)
    omega
  simp only [accepted, hiff]

/-- A ready descriptor that has not been reached is still in `master`. -/
theorem Scanning.waiting (h : Scanning FD_SETSIZE sFd s ready env i t) (hready : ready ⊆ s.master)
    {fd : ℕ} (hfd : fd ∈ ready) (hle : i ≤ fd) : fd ∈ t.master := by
  rw [h.master]
  refine Finset.mem_union_left _ (Finset.mem_sdiff.mpr ⟨hready hfd, ?_⟩)
  intro hserved
  have hlt : fd < i := (mem_served.mp hserved).2.1
  omega

/-- The iteration of a descriptor that is not ready. -/
theorem Scanning.skip (h : Scanning FD_SETSIZE sFd s ready env i t) (hlt : i < FD_SETSIZE)
    (hi : i ∉ ready) :
    Scanning FD_SETSIZE sFd s ready env (i + 1) { t with point := .scan (i + 1) } where
  descriptors := h.descriptors.congr rfl rfl
  point := rfl
  bound := hlt
  readFds := h.readFds
  master := by
    rw [served_succ_of_other (.inl hi), accepted_succ (.inl hi)]
    exact h.master
  accepted_fresh := by
    rw [accepted_succ (.inl hi)]
    exact fun fd hfd hle => h.accepted_fresh fd hfd (by omega)
  events := by
    rw [readyBelow_succ_of_notMem hi]
    exact h.events

/-- The iteration of the server's own socket. What is accepted is not waiting. -/
theorem Scanning.accept (h : Scanning FD_SETSIZE sFd s ready env sFd t) (hlt : sFd < FD_SETSIZE)
    (hready : ready ⊆ s.master) (hs : sFd ∈ ready) {newfd : ℕ} (hnew : newfd < FD_SETSIZE)
    (hfresh : newfd ∉ t.master) (henv : (env sFd).newfd = newfd) :
    Scanning FD_SETSIZE sFd s ready env (sFd + 1) { t with
      master := insert newfd t.master
      fdmax := max t.fdmax newfd
      point := .scan (sFd + 1)
      events := t.events ++ [.accept newfd] } where
  descriptors := (h.descriptors.accept hnew t.events).congr rfl rfl
  point := rfl
  bound := hlt
  readFds := h.readFds
  master := by
    have hnone : accepted sFd ready env sFd = ∅ := if_neg fun hs => Nat.lt_irrefl _ hs.2
    have hone : accepted sFd ready env (sFd + 1) = {newfd} := by
      rw [accepted, if_pos ⟨hs, Nat.lt_succ_self sFd⟩, henv, Int.toNat_natCast]
    rw [served_succ_of_other (.inr rfl), hone, h.master, hnone, Finset.union_empty,
      Finset.insert_eq, Finset.union_comm]
  accepted_fresh := by
    intro fd hfd hle hmem
    rw [accepted, if_pos ⟨hs, Nat.lt_succ_self sFd⟩, henv, Int.toNat_natCast,
      Finset.mem_singleton] at hmem
    subst hmem
    exact hfresh (h.waiting hready hfd (by omega))
  events := by
    rw [readyBelow_succ_of_mem hs, List.flatMap_append, ← List.append_assoc, ← h.events]
    simp [handled, henv]

/-- The iteration of a ready client. -/
theorem Scanning.serve (h : Scanning FD_SETSIZE sFd s ready env i t) (hlt : i < FD_SETSIZE)
    (hi : i ∈ ready) (hne : i ≠ sFd) {fd : ℕ} (hfd : IsGreatest (t.master.erase i : Set ℕ) fd) :
    Scanning FD_SETSIZE sFd s ready env (i + 1) { t with
      master := t.master.erase i
      fdmax := fd
      point := .scan (i + 1)
      events := t.events ++ [.print "Hi, client\n", .readLine i (env i).clientline,
        .print (env i).clientline, .close i] } where
  descriptors := (h.descriptors.close hne hfd t.events).congr rfl rfl
  point := rfl
  bound := hlt
  readFds := h.readFds
  master := by
    have hkept : (accepted sFd ready env i).erase i = accepted sFd ready env i :=
      Finset.erase_eq_of_notMem (h.accepted_fresh i hi le_rfl)
    rw [served_succ_of_client hi hne, accepted_succ (.inr hne), h.master,
      Finset.erase_union_distrib, hkept, Finset.sdiff_insert]
  accepted_fresh := by
    rw [accepted_succ (.inr hne)]
    exact fun fd hfd hle => h.accepted_fresh fd hfd (by omega)
  events := by
    rw [readyBelow_succ_of_mem hi, List.flatMap_append, ← List.append_assoc, ← h.events]
    simp [handled, hne]

/-- An iteration does with its descriptor what it should. -/
theorem scanning_step (h : Scanning FD_SETSIZE sFd s ready env i t) (hready : ready ⊆ s.master)
    (hi : i ≤ t.fdmax) (hallowed : Allowed FD_SETSIZE sFd t (env i)) :
    ∃ u, step FD_SETSIZE sFd t (env i) = some u ∧
      Scanning FD_SETSIZE sFd s ready env (i + 1) u := by
  have hlt : i < FD_SETSIZE := Nat.lt_of_le_of_lt hi h.descriptors.fdmax_lt
  have hstep : step FD_SETSIZE sFd t (env i) =
      (scanBody FD_SETSIZE sFd i (env i) t).bind
        fun u => some { u with point := .scan (i + 1) } := by
    unfold step
    simp only [h.point]
    exact if_pos hi
  rw [hstep, scanBody_eq h.descriptors hi, h.readFds]
  by_cases hmem : i ∈ ready
  · rw [if_pos hmem]
    by_cases hs : i = sFd
    · subst hs
      rw [if_pos rfl]
      simp only [Allowed, h.point, h.readFds] at hallowed
      obtain ⟨hnonneg, hfit, hfresh⟩ := hallowed trivial hmem
      obtain ⟨newfd, henv⟩ := Int.eq_ofNat_of_zero_le hnonneg
      rw [henv] at hfit hfresh ⊢
      have hnew : newfd < FD_SETSIZE := by omega
      rw [acceptClient_eq hnew]
      exact ⟨_, rfl, h.accept hlt hready hmem hnew hfresh henv⟩
    · rw [if_neg hs]
      obtain ⟨fd, hfd, heq⟩ := serveClient_eq h.descriptors hi hs (env i).clientline
      rw [heq]
      exact ⟨_, rfl, h.serve hlt hmem hs hfd⟩
  · rw [if_neg hmem]
    exact ⟨_, rfl, h.skip hlt hmem⟩

/-! ## The whole scan -/

/-- The first iteration comes after the call of `select`. -/
theorem scanning_start (h : Descriptors FD_SETSIZE sFd s) :
    Scanning FD_SETSIZE sFd s ready env 0 { s with readFds := ready, point := .scan 0 } where
  descriptors := h.congr rfl rfl
  point := rfl
  bound := Nat.zero_le _
  readFds := rfl
  master := by
    simp [served, accepted]
  accepted_fresh := by
    simp [accepted]
  events := by
    simp [readyBelow]

variable (FD_SETSIZE sFd) in
/-- The scan has come to iteration `n`. -/
def Reaches (s : Server) (first : Env) (env : ℕ → Env) (n : ℕ) (t : Server) : Prop :=
  exec (step FD_SETSIZE sFd) (first :: (List.range n).map env) s = some t

theorem Reaches.succ {first : Env} {n : ℕ} (h : Reaches FD_SETSIZE sFd s first env n t) {u : Server}
    (hu : step FD_SETSIZE sFd t (env n) = some u) :
    Reaches FD_SETSIZE sFd s first env (n + 1) u := by
  rw [Reaches, List.range_succ, List.map_append, ← List.cons_append, exec_append, h]
  simp [exec, hu]

/-- **A scan serves every ready descriptor exactly once.** `select` leaves some members of
`master` ready, and the accept, if there is one, returns a descriptor that is not in `master`
at that moment. Then the scan comes to an end; up to there iteration `m` follows iteration
`m - 1`; what it has done is the accept for the server's own socket and one read and one close
for each ready client, in ascending order, and nothing else; and `master` has lost the clients
served and gained the accepted descriptor. -/
theorem scan_serves_once (h : Descriptors FD_SETSIZE sFd s) (hpoint : s.point = .select)
    {first : Env} (hready : first.ready ⊆ s.master)
    (haccept : ∀ t, Reaches FD_SETSIZE sFd s first env sFd t →
      Allowed FD_SETSIZE sFd t (env sFd)) :
    ∃ n t, Reaches FD_SETSIZE sFd s first env n t ∧ t.point = .select ∧
      (∀ m < n, ∃ u, Reaches FD_SETSIZE sFd s first env m u ∧ u.point = .scan m) ∧
      t.events = s.events ++ (first.ready.sort (· ≤ ·)).flatMap (handled sFd env) ∧
      t.master = (s.master \ first.ready.erase sFd) ∪
        (if sFd ∈ first.ready then {(env sFd).newfd.toNat} else ∅) ∧
      Descriptors FD_SETSIZE sFd t := by
  -- iteration `n` is reached, with all before it
  let P := fun n => ∃ t, Reaches FD_SETSIZE sFd s first env n t ∧
    Scanning FD_SETSIZE sFd s first.ready env n t
  have h0 : P 0 := by
    refine ⟨_, ?_, scanning_start h⟩
    simp [Reaches, exec, step, hpoint]
  have hend : ∃ n, ¬ P n := by
    refine ⟨FD_SETSIZE + 1, ?_⟩
    rintro ⟨t, -, ht⟩
    exact absurd ht.bound (by omega)
  classical
  obtain ⟨n, hn⟩ : ∃ n, Nat.find hend = n + 1 := by
    refine Nat.exists_eq_succ_of_ne_zero ?_
    intro hzero
    exact Nat.find_spec hend (hzero ▸ h0)
  have hlast : ¬ P (n + 1) := hn ▸ Nat.find_spec hend
  have hbefore : ∀ m ≤ n, P m := by
    intro m hm
    exact not_not.mp (Nat.find_min hend (by omega))
  obtain ⟨t, hreach, ht⟩ := hbefore n le_rfl
  have hallowed : Allowed FD_SETSIZE sFd t (env n) := by
    by_cases hs : n = sFd
    · subst hs
      exact haccept t hreach
    · simp only [Allowed, ht.point]
      exact fun hn => absurd hn hs
  -- the iteration would be carried out if it were not beyond `fdmax`
  have hdone : t.fdmax < n := by
    by_contra hle
    obtain ⟨u, hu, hscan⟩ := scanning_step ht hready (by omega) hallowed
    exact hlast ⟨u, hreach.succ hu, hscan⟩
  have hall : ∀ fd ∈ first.ready, fd < n := by
    intro fd hfd
    by_contra hle
    have hmem : fd ∈ t.master := ht.waiting hready hfd (by omega)
    have hmax : fd ≤ t.fdmax := ht.descriptors.mem_le hmem
    omega
  refine ⟨n + 1, { t with point := .select }, hreach.succ ?_, rfl, ?_, ?_, ?_, ?_⟩
  · unfold step
    simp only [ht.point]
    exact if_neg (by omega)
  · intro m hm
    obtain ⟨u, hu, hscan⟩ := hbefore m (by omega)
    exact ⟨u, hu, hscan.point⟩
  · rw [← readyBelow_eq_sort hall]
    exact ht.events
  · have hserved : served sFd first.ready n = first.ready.erase sFd := by
      ext fd
      simp only [mem_served, Finset.mem_erase]
      exact ⟨fun hfd => ⟨hfd.2.2, hfd.1⟩, fun hfd => ⟨hfd.2, hall fd hfd.2, hfd.1⟩⟩
    have haccepted : accepted sFd first.ready env n =
        if sFd ∈ first.ready then {(env sFd).newfd.toNat} else ∅ := by
      rw [accepted]
      exact if_congr (and_iff_left_of_imp (hall sFd)) rfl rfl
    rw [← hserved, ← haccepted]
    exact ht.master
  · exact ht.descriptors.congr rfl rfl

end

/-- The server's own socket 4 between two clients. -/
def twoClients : Server :=
  { master := {3, 4, 6}, readFds := ∅, fdmax := 6, point := .select, events := [] }

/-- All three are ready. Client 3 is closed first, and the accept gets its number again. -/
def allReady : Env := ⟨{3, 4, 6}, -1, ""⟩

theorem scan_serves_once_twoClients :
    ∃ n t, Reaches 1024 4 twoClients allReady (fun _ => ⟨∅, 3, "hello\n"⟩) n t ∧
      t.point = .select ∧
      (∀ m < n, ∃ u, Reaches 1024 4 twoClients allReady (fun _ => ⟨∅, 3, "hello\n"⟩) m u ∧
        u.point = .scan m) ∧
      t.events = twoClients.events ++
        (allReady.ready.sort (· ≤ ·)).flatMap (handled 4 fun _ => ⟨∅, 3, "hello\n"⟩) ∧
      t.master = (twoClients.master \ allReady.ready.erase 4) ∪
        (if 4 ∈ allReady.ready then {((⟨∅, 3, "hello\n"⟩ : Env)).newfd.toNat} else ∅) ∧
      Descriptors 1024 4 t := by
  have hdescriptors : Descriptors 1024 4 twoClients := by
    refine ⟨by decide, ⟨by decide, ?_⟩, by decide⟩
    have hle : ∀ fd ∈ ({3, 4, 6} : Finset ℕ), fd ≤ 6 := by decide
    exact fun fd hfd => hle fd hfd
  refine scan_serves_once hdescriptors rfl (Finset.Subset.refl _) ?_
  intro t ht
  have hmaster : (exec (step 1024 4) (allReady :: (List.range 4).map
      fun _ => ⟨∅, 3, "hello\n"⟩) twoClients).map Server.master = some {4, 6} := by decide
  rw [Reaches] at ht
  rw [ht] at hmaster
  have hfresh : 3 ∉ t.master := by
    rw [Option.some.inj hmaster]
    decide
  unfold Allowed
  split
  · exact Finset.empty_subset _
  · exact fun _ _ => ⟨by decide, by decide, hfresh⟩

end Osh.SelectServer
