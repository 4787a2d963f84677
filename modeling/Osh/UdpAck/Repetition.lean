import Osh.UdpAck.Accounting

/-!
# Order and repetition of the printed lines

The server prints whatever it receives: it keeps no record of the sequence numbers, so a
line that the client sent again may be printed again. How often is bounded by the
client alone; over a network that keeps the order no line is printed after a later one.

## Main definitions

* `Sys.printedNumbers`: the sequence numbers of the printed messages.
-/
namespace Osh.UdpAck
open CString

variable {lines : List Line} {s : Sys} {as : List Action}

/-- The sequence numbers of the messages that the server has printed, oldest first. -/
def Sys.printedNumbers (s : Sys) : List ℕ := s.printed.map fun msg => msg.frame.mseqn.toNat

theorem printedNumbers_eq (hlen : lines.length < 2 ^ 32) (h : run lines as = some s) :
    s.printedNumbers = (s.printed.map (·.line)).map (· + 1) := by
  rw [List.map_map]
  apply List.map_congr_left
  intro msg hmsg
  exact ((clientLog h).carries msg (sent_of_printed h hmsg)).mseqn hlen

/-- What is printed has been sent, copy by copy. -/
theorem copiesOf_printed_le (h : run lines as = some s) (k : ℕ) :
    copiesOf k s.printed ≤ copiesOf k s.sent := by
  have hsub : s.printed.Subperm s.sent :=
    (List.sublist_append_left ..).subperm.trans (copies_subperm h)
  exact hsub.countP_le _

/-- **A line is printed at most as often as it was sent**: once if it was never sent
again, and `NRETRIES + 1` times at most. -/
theorem printed_at_most_sent (h : run lines as = some s) (k : ℕ) :
    copiesOf k s.printed ≤ copiesOf k s.sent ∧ copiesOf k s.sent ≤ NRETRIES + 1 :=
  ⟨copiesOf_printed_le h k, (clientLog h).bounded k⟩

/-! ## A line printed twice -/

/-- The line of one character, a newline at its end. -/
def lineOf (c : Byte) : Line := ⟨[c, 10], by simp, by simp [PAYLOAD_SIZE]⟩

/-- The lines `a` and `b`. -/
def ab : List Line := [lineOf 97, lineOf 98]

/-- The acknowledgement of the first copy of the first line is lost, so the client sends
another one, and then the second line. -/
def ackLost : List Action :=
  [.fgets, .deliverData 0, .recvfrom, .sendto, .dropAck 0, .selectTimeout, .deliverData 0,
    .recvfrom, .sendto, .deliverAck 0, .selectReady, .recv, .fgets, .deliverData 0, .recvfrom]

theorem run_ackLost : ∃ s, run ab ackLost = some s :=
  Option.isSome_iff_exists.mp (by decide +kernel)

theorem printed_at_most_sent_ackLost :
    ∃ s, run ab ackLost = some s ∧
      copiesOf 0 s.printed ≤ copiesOf 0 s.sent ∧ copiesOf 0 s.sent ≤ NRETRIES + 1 := by
  obtain ⟨s, hs⟩ := run_ackLost
  exact ⟨s, hs, printed_at_most_sent hs 0⟩

/-- The server does not tell a message that is sent again from a new one. -/
theorem line_printed_twice :
    ¬ ∀ (lines : List Line) (as : List Action) (s : Sys), (∀ a ∈ as, a.InOrder) →
      run lines as = some s → ∀ k, copiesOf k s.printed ≤ 1 := by
  intro hclaim
  have htwice : ∃ s ∈ run ab ackLost, copiesOf 0 s.printed = 2 := by decide +kernel
  obtain ⟨s, hs, hcount⟩ := htwice
  have honce : copiesOf 0 s.printed ≤ 1 := hclaim ab ackLost s (by decide) hs 0
  omega

/-! ## Numbers, payloads and acknowledgements -/

/-- **Order and bounded repetition.** The printed numbers do not decrease, none is
printed more than `NRETRIES + 1` times, the text printed under a number is the line of
that number, and every acknowledgement carries the number of a printed line. -/
theorem printed_in_order (hlen : lines.length < 2 ^ 32) (hnul : ∀ l ∈ lines, 0 ∉ l.bytes)
    (hfifo : ∀ a ∈ as, a.InOrder) (h : run lines as = some s) :
    s.printedNumbers.Pairwise (· ≤ ·) ∧
      (∀ n, s.printedNumbers.count n ≤ NRETRIES + 1) ∧
      (∀ msg ∈ s.printed, ∃ k l, lines[k]? = some l ∧ msg.frame.mseqn.toNat = k + 1 ∧
        str msg.frame.payload = l.bytes) ∧
      ∀ ack ∈ s.acks.contents, ack.frame.mseqn.toNat ∈ s.printedNumbers := by
  have hlog : ClientLog lines s.client s.sent := clientLog h
  refine ⟨?_, ?_, ?_, ?_⟩
  · have hsub : s.printed.Sublist s.sent :=
      (List.sublist_append_left ..).trans (copies_sublist hfifo h)
    have hordered : (s.printed.map (·.line)).Pairwise (· ≤ ·) := hlog.ordered.sublist (hsub.map _)
    rw [printedNumbers_eq hlen h]
    exact hordered.map _ fun _ _ hle => Nat.succ_le_succ hle
  · intro n
    rw [printedNumbers_eq hlen h]
    cases n with
    | zero => simp [List.count_eq_zero_of_not_mem]
    | succ k =>
        rw [List.count_map_of_injective _ _ Nat.succ_injective]
        have hcount : (s.printed.map (·.line)).count k = copiesOf k s.printed :=
          List.countP_map
        rw [hcount]
        exact (copiesOf_printed_le h k).trans (hlog.bounded k)
  · intro msg hmsg
    have hcarries : Carries lines msg := hlog.carries msg (sent_of_printed h hmsg)
    have hnumber : msg.frame.mseqn.toNat = msg.line + 1 := hcarries.mseqn hlen
    obtain ⟨l, hl, hframe⟩ := hcarries
    refine ⟨msg.line, l, hl, hnumber, ?_⟩
    rw [hframe, str_payload_dataFrame]
    exact str_of_notMem (hnul l (List.mem_of_getElem? hl))
  · intro ack hack
    obtain ⟨msg, hmsg, rfl⟩ := (acknowledges h).acks ack hack
    exact List.mem_map_of_mem hmsg

theorem printed_in_order_ackLost :
    ∃ s, run ab ackLost = some s ∧ s.printedNumbers.Pairwise (· ≤ ·) ∧
      (∀ n, s.printedNumbers.count n ≤ NRETRIES + 1) ∧
      (∀ msg ∈ s.printed, ∃ k l, ab[k]? = some l ∧ msg.frame.mseqn.toNat = k + 1 ∧
        str msg.frame.payload = l.bytes) ∧
      ∀ ack ∈ s.acks.contents, ack.frame.mseqn.toNat ∈ s.printedNumbers := by
  obtain ⟨s, hs⟩ := run_ackLost
  exact ⟨s, hs, printed_in_order (by decide) (by decide) (by decide) hs⟩

end Osh.UdpAck
