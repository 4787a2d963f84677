import Osh.UdpAck.Repetition

/-!
# Lines that the server never prints

The client takes any acknowledgement for one of the line it is waiting on. A line is safe
as long as the acknowledgements it takes were sent for that line; one left over from an
earlier line, sent more than once, lets the client go on although the line was lost.

## Main definitions

* `MovedPast`, `Printed`: what the client and the server have done with a line.
* `AckCurrent`: the acknowledgement about to be taken is for the line waited on.
-/
namespace Osh.UdpAck
open PartialRun CString

variable {lines : List Line} {s t : Sys} {a : Action} {as : List Action}

/-- The client has read the line behind line `k`, or has ended at the end of the input. -/
def MovedPast (s : Sys) (k : ℕ) : Prop :=
  k + 1 < s.client.seqno ∨ s.client.phase = .closed ∧ k < s.client.seqno

/-- The server has printed line `k`, as a string. -/
def Printed (lines : List Line) (s : Sys) (k : ℕ) : Prop :=
  ∃ msg ∈ s.printed, msg.line = k ∧
    ∃ l, lines[k]? = some l ∧ str msg.frame.payload = str l.bytes

/-- If this step takes an acknowledgement, it was sent for the line that the client is
waiting on. -/
def AckCurrent (s : Sys) (a : Action) : Prop :=
  a = .recv → ∀ ack ∈ s.acks.buffer.head?, ack.line + 1 = s.client.seqno

/-- The lines that the client no longer cares for. -/
def Client.passed (c : Client) : ℕ :=
  match c.phase with
  | .fgets | .closed => c.seqno
  | .select _ _ | .recv | .gaveUp => c.seqno - 1

/-- Every line that the client no longer cares for has been printed. -/
def PassedPrinted (s : Sys) : Prop := ∀ k < s.client.passed, ∃ msg ∈ s.printed, msg.line = k

theorem Step.passedPrinted (hstep : Step lines s a t) (hok : AckCurrent s a)
    (hacks : Acknowledges s) (h : PassedPrinted s) : PassedPrinted t := by
  cases hstep with
  | read hphase | close hphase | selectReady hphase =>
      intro k hk
      exact h k (by simpa [Client.passed, hphase] using hk)
  | @resend msg remaining hphase =>
      intro k hk
      apply h k
      by_cases hlast : remaining = 0
      · simpa [Client.passed, hphase, hlast] using hk
      · simpa [Client.passed, hphase, hlast] using hk
  | @recv ack acks hphase hreceive =>
      obtain ⟨hbuffer, -⟩ := Channel.receive_eq_some_iff.mp hreceive
      have hline : ack.line + 1 = s.client.seqno := hok rfl ack (by simp [hbuffer])
      intro k hk
      replace hk : k < s.client.seqno := hk
      by_cases hcurrent : k = ack.line
      · -- the line waited on: the acknowledgement vouches for it
        obtain ⟨msg, hmsg, rfl⟩ := hacks.acks ack (by simp [Channel.contents_receive hreceive])
        exact ⟨msg, hmsg, hcurrent.symm⟩
      · refine h k ?_
        simp only [Client.passed, hphase]
        omega
  | print =>
      intro k hk
      obtain ⟨msg, hmsg, hline⟩ := h k hk
      exact ⟨msg, List.mem_append_left _ hmsg, hline⟩
  | stop | acknowledge | deliverData | dropData | deliverAck | dropAck => exact h

/-- **No line is lost** in a run where each acknowledgement that the client takes was
sent for the line it is waiting on, whatever else the network and the timeouts do. -/
theorem no_line_lost (hok : Along AckCurrent (step lines) as .init)
    (h : run lines as = some s) : ∀ k, MovedPast s k → Printed lines s k := by
  have hinv : Acknowledges s ∧ PassedPrinted s := by
    refine run_induction (fun s => Acknowledges s ∧ PassedPrinted s) ?_ ?_ hok h
    · have hinit : run lines [] = some .init := rfl
      exact ⟨acknowledges hinit, fun k hk => absurd hk (Nat.not_lt_zero k)⟩
    · rintro s a t ⟨hacks, hpassed⟩ hsa hstep
      exact ⟨hstep.acknowledges hacks, hstep.passedPrinted hsa hacks hpassed⟩
  intro k hk
  have hlt : k < s.client.passed := by
    rcases hk with hlt | ⟨hclosed, hlt⟩
    · unfold Client.passed
      split <;> omega
    · simpa [Client.passed, hclosed] using hlt
  obtain ⟨msg, hmsg, rfl⟩ := hinv.2 k hlt
  obtain ⟨l, hl, hframe⟩ := (clientLog h).carries msg (sent_of_printed h hmsg)
  exact ⟨msg, hmsg, rfl, l, hl, by rw [hframe, str_payload_dataFrame]⟩

instance (s : Sys) (a : Action) : Decidable (AckCurrent s a) :=
  have : Decidable (∀ ack ∈ s.acks.buffer.head?, ack.line + 1 = s.client.seqno) :=
    Option.decidableForallMem _
  inferInstanceAs (Decidable (_ → _))

instance (s : Sys) (k : ℕ) : Decidable (MovedPast s k) := inferInstanceAs (Decidable (_ ∨ _))

/-- The message of the first line is lost and sent again; both lines are acknowledged in time. -/
def dataLost : List Action :=
  let exchange : List Action :=
    [.deliverData 0, .recvfrom, .sendto, .deliverAck 0, .selectReady, .recv, .fgets]
  [.fgets, .dropData 0, .selectTimeout] ++ exchange ++ exchange

theorem no_line_lost_dataLost : ∃ s, run ab dataLost = some s ∧
    (MovedPast s 0 ∧ MovedPast s 1) ∧ Printed ab s 0 ∧ Printed ab s 1 := by
  have hmoved : ∃ s ∈ run ab dataLost, MovedPast s 0 ∧ MovedPast s 1 := by decide +kernel
  obtain ⟨s, hs, h0, h1⟩ := hmoved
  have hprinted := no_line_lost (by decide +kernel) hs
  exact ⟨s, hs, ⟨h0, h1⟩, hprinted 0 h0, hprinted 1 h1⟩

/-- The lines `a`, `b` and `c`. -/
def abc : List Line := [lineOf 97, lineOf 98, lineOf 99]

/-- The first line is sent twice and acknowledged twice. The client takes the second
acknowledgement for one of the second line, whose message is lost. -/
def staleAck : List Action :=
  [.fgets, .deliverData 0, .recvfrom, .selectTimeout, .sendto, .deliverAck 0, .selectReady, .recv,
    .deliverData 0, .recvfrom, .sendto, .fgets, .dropData 0, .deliverAck 0, .selectReady, .recv,
    .fgets]

/-- The number that the server puts into an acknowledgement is never compared. -/
theorem line_lost :
    ¬ ∀ (lines : List Line) (as : List Action) (s : Sys), run lines as = some s →
      ∀ k, MovedPast s k → Printed lines s k := by
  intro hclaim
  have hlost : ∃ s ∈ run abc staleAck, MovedPast s 1 ∧ ∀ msg ∈ s.printed, msg.line ≠ 1 := by
    decide +kernel
  obtain ⟨s, hs, hmoved, hunprinted⟩ := hlost
  obtain ⟨msg, hmsg, hline, -⟩ := hclaim abc staleAck s hs 1 hmoved
  exact hunprinted msg hmsg hline

/-! ## The check that is missing -/

/-- With fewer than 2^32 lines, an acknowledgement on its way to the client is for the
line waited on if and only if it carries the number of that line. -/
theorem ackCurrent_iff_mseqn (hlen : lines.length < 2 ^ 32) (h : run lines as = some s)
    {ack : Acknowledgement} (hack : ack ∈ s.acks.contents) :
    ack.line + 1 = s.client.seqno ↔ ack.frame.mseqn = BitVec.ofNat 32 s.client.seqno := by
  have hlog : ClientLog lines s.client s.sent := clientLog h
  obtain ⟨msg, hmsg, rfl⟩ := (acknowledges h).acks ack hack
  have hmseqn : msg.frame.mseqn.toNat = msg.line + 1 :=
    (hlog.carries msg (sent_of_printed h hmsg)).mseqn hlen
  have hseqno : (BitVec.ofNat 32 s.client.seqno).toNat = s.client.seqno := by
    have hle : s.client.seqno ≤ lines.length := hlog.inRange
    exact Nat.mod_eq_of_lt (by omega)
  rw [← BitVec.toNat_inj, hseqno]
  exact hmseqn.symm ▸ Iff.rfl

end Osh.UdpAck
