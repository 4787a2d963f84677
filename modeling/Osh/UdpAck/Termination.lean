import Osh.UdpAck.Repetition

/-!
# Every run ends

The client waits for an acknowledgement a bounded number of times, and nothing that the
server or the network does makes work without using up some that the client has made. So
a run over a finite input is finite, whatever is lost, delayed or reordered, and the
client is never stuck on its way: it ends at the end of its input or gives up on a line
that it has sent `NRETRIES + 1` times.

## Main definitions

* `Sys.work`: a bound on the steps still to come.
* `Client.Ended`: what the client has done when it ends.
-/
namespace Osh.UdpAck
open PartialRun

variable {lines : List Line} {s t : Sys} {a : Action} {as : List Action}

/-! ## The work that is left -/

/-- A line costs at most its `fgets`, the waiting below and the `recv` of an
acknowledgement. -/
def lineWork : ℕ := 5 * NRETRIES + 2

/-- The steps that the client may still take, and those that its messages may cause:
each is delivered, printed, acknowledged, and its acknowledgement delivered. -/
def Client.work (total : ℕ) (c : Client) : ℕ :=
  let unread := lineWork * (total - c.seqno)
  match c.phase with
  | .fgets => unread + 3
  | .select _ remaining => unread + 5 * remaining
  | .recv => unread + 4
  | .closed | .gaveUp => 0

def Server.work : Server → ℕ
  | .recvfrom => 1
  | .sendto _ => 3
  | .stopped => 0

/-- A bound on the steps still to come. -/
def Sys.work (total : ℕ) (s : Sys) : ℕ :=
  s.client.work total + s.server.work + 4 * s.data.inFlight.length + 3 * s.data.buffer.length +
    s.acks.inFlight.length

/-- While the client waits it can wait again, and what it is about to take has arrived. -/
structure Live (s : Sys) : Prop where
  waiting : ∀ msg remaining, s.client.phase = .select msg remaining → 0 < remaining
  arrived : s.client.phase = .recv → s.acks.buffer ≠ []

theorem Step.live (hstep : Step lines s a t) (h : Live s) : Live t := by
  cases hstep with
  | read => exact ⟨by simp [NRETRIES], by simp⟩
  | close => exact ⟨by simp, by simp⟩
  | selectReady _ hready => exact ⟨by simp, fun _ => hready⟩
  | @resend msg remaining hphase =>
      constructor
      · intro m r heq
        simp only at heq
        split at heq
        · cases heq
        · cases heq
          omega
      · intro heq
        simp only at heq
        split at heq <;> cases heq
  | recv => exact ⟨by simp, by simp⟩
  | print | stop | deliverData | dropData => exact ⟨h.waiting, h.arrived⟩
  | acknowledge => exact ⟨h.waiting, h.arrived⟩
  | deliverAck hacks =>
      refine ⟨h.waiting, fun _ hnil => ?_⟩
      have hlength := (Channel.length_deliver hacks).2
      simp only at hnil
      simp [hnil] at hlength
  | dropAck hacks =>
      refine ⟨h.waiting, fun hphase => ?_⟩
      rw [(Channel.length_drop hacks).2]
      exact h.arrived hphase

/-- **Every step does some of the work that is left.** -/
theorem Step.work_lt (hstep : Step lines s a t) (h : Live s) :
    t.work lines.length < s.work lines.length := by
  cases hstep with
  | read hphase hl =>
      have hlt : s.client.seqno < lines.length := (List.getElem?_eq_some_iff.mp hl).1
      obtain ⟨k, hk⟩ : ∃ k, lines.length = s.client.seqno + 1 + k := Nat.exists_eq_add_of_le hlt
      have hrest : lines.length - s.client.seqno = k + 1 := by omega
      have hrest' : lines.length - (s.client.seqno + 1) = k := by omega
      simp only [Sys.work, Client.work, Sys.send, Channel.send, hphase, hrest, hrest',
        List.length_append, List.length_singleton, lineWork, NRETRIES]
      omega
  | close hphase =>
      simp only [Sys.work, Client.work, hphase]
      omega
  | selectReady hphase =>
      have hpos := h.waiting _ _ hphase
      simp only [Sys.work, Client.work, hphase]
      omega
  | @resend msg remaining hphase =>
      by_cases hlast : remaining = 0
      · simp only [Sys.work, Client.work, Sys.send, Channel.send, hphase, hlast, if_true,
          List.length_append, List.length_singleton]
        omega
      · simp only [Sys.work, Client.work, Sys.send, Channel.send, hphase, hlast, if_false,
          List.length_append, List.length_singleton]
        omega
  | recv hphase hacks =>
      obtain ⟨hflight, -⟩ := Channel.length_receive hacks
      simp only [Sys.work, Client.work, hphase, hflight]
      omega
  | print hserver hdata =>
      obtain ⟨hflight, hbuffer⟩ := Channel.length_receive hdata
      simp only [Sys.work, Server.work, hserver, hflight]
      omega
  | stop hserver =>
      simp only [Sys.work, Server.work, hserver]
      omega
  | acknowledge hserver =>
      simp only [Sys.work, Server.work, hserver, Channel.send, List.length_append,
        List.length_singleton]
      omega
  | deliverData hdata =>
      obtain ⟨hflight, hbuffer⟩ := Channel.length_deliver hdata
      simp only [Sys.work]
      omega
  | dropData hdata =>
      obtain ⟨hflight, hbuffer⟩ := Channel.length_drop hdata
      simp only [Sys.work, hbuffer]
      omega
  | deliverAck hacks =>
      obtain ⟨hflight, -⟩ := Channel.length_deliver hacks
      simp only [Sys.work]
      omega
  | dropAck hacks =>
      obtain ⟨hflight, -⟩ := Channel.length_drop hacks
      simp only [Sys.work]
      omega

theorem live_init : Live .init := ⟨by simp [Sys.init], by simp [Sys.init]⟩

theorem live (h : run lines as = some s) : Live s :=
  run_induction Live live_init (fun _ _ _ hlive _ hstep => hstep.live hlive)
    (Along.of_forall fun _ _ _ => trivial) h

theorem length_le_work (h : run lines as = some s) :
    as.length + s.work lines.length ≤ Sys.init.work lines.length := by
  refine exec_length_le Live (Sys.work lines.length) ?_ live_init h
  intro s a t hlive hstep
  have hstep' : Step lines s a t := step_eq_some_iff.mp hstep
  exact ⟨hstep'.live hlive, hstep'.work_lt hlive⟩

/-! ## How the client ends -/

/-- What the client owes of the line in hand: all copies but the remaining ones are sent,
and all of them when it gives up. -/
structure Owed (client : Client) (sent : List Data) (total : ℕ) : Prop where
  waiting : ∀ msg remaining, client.phase = .select msg remaining →
    msg.line + 1 = client.seqno ∧ copiesOf msg.line sent + remaining = NRETRIES + 1
  gaveUp : client.phase = .gaveUp →
    ∃ k, k + 1 = client.seqno ∧ copiesOf k sent = NRETRIES + 1
  closed : client.phase = .closed → client.seqno = total

theorem Step.owed (hstep : Step lines s a t) (hlog : ClientLog lines s.client s.sent)
    (h : Owed s.client s.sent lines.length) : Owed t.client t.sent lines.length := by
  cases hstep with
  | read hphase hl =>
      refine ⟨?_, by simp, by simp⟩
      rintro msg remaining heq
      cases heq
      refine ⟨rfl, ?_⟩
      have hunread : copiesOf s.client.seqno s.sent = 0 := hlog.unread (Nat.le_refl _)
      simp only [Sys.send, copiesOf_append, hunread, if_true]
      omega
  | close hphase hend =>
      refine ⟨by simp, by simp, fun _ => ?_⟩
      have hle : s.client.seqno ≤ lines.length := hlog.inRange
      exact Nat.le_antisymm hle hend
  | @resend msg remaining hphase =>
      obtain ⟨hline, hcount⟩ := h.waiting msg _ hphase
      by_cases hlast : remaining = 0
      · refine ⟨by simp [hlast], fun _ => ⟨msg.line, hline, ?_⟩, by simp [hlast]⟩
        simp only [Sys.send, copiesOf_append, if_true]
        omega
      · refine ⟨?_, by simp [hlast], by simp [hlast]⟩
        intro m r heq
        simp only [hlast, if_false] at heq
        cases heq
        refine ⟨hline, ?_⟩
        simp only [Sys.send, copiesOf_append, if_true]
        omega
  | selectReady | recv => exact ⟨by simp, by simp, by simp⟩
  | print | stop | acknowledge | deliverData | dropData | deliverAck | dropAck => exact h

theorem owed (h : run lines as = some s) : Owed s.client s.sent lines.length := by
  have hinv : ClientLog lines s.client s.sent ∧ Owed s.client s.sent lines.length := by
    refine run_induction
      (fun s => ClientLog lines s.client s.sent ∧ Owed s.client s.sent lines.length) ?_ ?_
      (Along.of_forall fun _ _ _ => trivial) h
    · have hinit : run lines [] = some .init := rfl
      exact ⟨clientLog hinit, by simp [Sys.init], by simp [Sys.init], by simp [Sys.init]⟩
    · rintro s a t ⟨hlog, howed⟩ - hstep
      exact ⟨hstep.clientLog hlog, hstep.owed hlog howed⟩
  exact hinv.2

/-- The client has read its whole input, or it has sent the line in hand as often as it
ever does. -/
def Client.Ended (total : ℕ) (c : Client) (sent : List Data) : Prop :=
  c.phase = .closed ∧ c.seqno = total ∨
    c.phase = .gaveUp ∧ ∃ k, k + 1 = c.seqno ∧ copiesOf k sent = NRETRIES + 1

/-- A client that has not ended can go on by itself: no message need arrive. -/
theorem ended_or_step (h : run lines as = some s) :
    s.client.Ended lines.length s.sent ∨ ∃ a t, Step lines s a t := by
  cases hphase : s.client.phase with
  | fgets =>
      rcases Nat.lt_or_ge s.client.seqno lines.length with hlt | hend
      · exact .inr ⟨_, _, .read hphase (List.getElem?_eq_getElem hlt)⟩
      · exact .inr ⟨_, _, .close hphase hend⟩
  | select msg remaining =>
      obtain ⟨r, rfl⟩ : ∃ r, remaining = r + 1 :=
        Nat.exists_eq_succ_of_ne_zero (Nat.ne_of_gt ((live h).waiting msg remaining hphase))
      exact .inr ⟨_, _, .resend hphase⟩
  | recv =>
      obtain ⟨ack, buffer, hbuffer⟩ := List.exists_cons_of_ne_nil ((live h).arrived hphase)
      have hreceive : s.acks.receive = some (ack, { s.acks with buffer }) :=
        Channel.receive_eq_some_iff.mpr ⟨hbuffer, rfl⟩
      exact .inr ⟨_, _, .recv hphase hreceive⟩
  | closed => exact .inl (.inl ⟨hphase, (owed h).closed hphase⟩)
  | gaveUp => exact .inl (.inr ⟨hphase, (owed h).gaveUp hphase⟩)

/-- **Every run ends, and the client with it.** Over any network a run takes at most
`(5 * NRETRIES + 2) * lines.length + 4` steps, and where no step is left to take the
client has read its whole input or has sent the line in hand `NRETRIES + 1` times. -/
theorem every_run_ends (h : run lines as = some s) :
    as.length ≤ (5 * NRETRIES + 2) * lines.length + 4 ∧
      ((∀ a, step lines s a = none) → s.client.Ended lines.length s.sent) := by
  constructor
  · have hwork := length_le_work h
    simp only [Sys.work, Sys.init, Client.work, Server.work, Channel.empty, lineWork,
      List.length_nil, Nat.sub_zero] at hwork
    omega
  · intro hstuck
    rcases ended_or_step h with hended | ⟨a, t, hstep⟩
    · exact hended
    · have hsome : step lines s a = some t := step_eq_some_iff.mpr hstep
      rw [hstuck a] at hsome
      cases hsome

/-- Every copy of the only line is lost, and the server stops. -/
def allLost : List Action :=
  .fgets :: .dropData 0 :: (List.replicate NRETRIES [.selectTimeout, .dropData 0]).flatten ++
    [.recvfromError]

theorem every_run_ends_allLost :
    ∃ s, run [lineOf 97] allLost = some s ∧ allLost.length ≤ (5 * NRETRIES + 2) * 1 + 4 ∧
      s.client.Ended 1 s.sent := by
  have hfinal : ∃ s ∈ run [lineOf 97] allLost, s.client.phase = .gaveUp ∧ s.server = .stopped ∧
      s.data = .empty ∧ s.acks = .empty := by decide +kernel
  obtain ⟨s, hs, hphase, hserver, hdata, hacks⟩ := hfinal
  obtain ⟨hlength, hended⟩ := every_run_ends hs
  refine ⟨s, hs, hlength, hended ?_⟩
  intro a
  cases a <;>
    simp [step, hphase, hserver, hdata, hacks, Channel.deliver, Channel.drop, Channel.empty]

end Osh.UdpAck
