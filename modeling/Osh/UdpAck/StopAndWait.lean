import Osh.UdpAck.LostLines

/-!
# Runs without a timeout

As long as no wait of the client times out, at most one datagram is on its way between the
two programs at a time. The network then cannot reorder anything, and whatever it delays
or loses, the server has printed the first lines of the input, each once and in order,
and every line that the client no longer cares for is among them.

## Main definitions

* `Sys.answers`: the acknowledgements on their way, or about to be sent.
* `OneAtATime`: the one datagram there may be, and the line that it is about.
-/
namespace Osh.UdpAck
open PartialRun CString

variable {lines : List Line} {s t : Sys} {a : Action} {as : List Action}

/-- The acknowledgement that the server is about to send. -/
def Server.pending : Server → ℕ
  | .sendto _ => 1
  | .recvfrom | .stopped => 0

/-- The acknowledgements on their way to the client, and the one about to be sent. -/
def Sys.answers (s : Sys) : ℕ := s.acks.contents.length + s.server.pending

/-- The one datagram of each phase of the client. -/
def Sys.Outstanding (s : Sys) : Prop :=
  match s.client.phase with
  | .fgets | .closed =>
      s.data.contents.length = 0 ∧ s.answers = 0 ∧ s.printed.length = s.client.seqno
  | .select _ _ =>
      s.data.contents.length + s.answers ≤ 1 ∧
        s.printed.length + s.data.contents.length ≤ s.client.seqno ∧
        s.client.seqno ≤ s.printed.length + 1 ∧
        (0 < s.answers → s.printed.length = s.client.seqno)
  | .recv => s.data.contents.length = 0 ∧ s.answers ≤ 1 ∧ s.printed.length = s.client.seqno
  | .gaveUp => False

/-- The printed messages are for the first lines, one each, and the message on its way is
for the next one. -/
structure OneAtATime (s : Sys) : Prop where
  numbered : s.printed.map (·.line) = List.range s.printed.length
  next : ∀ msg ∈ s.data.contents, msg.line = s.printed.length
  outstanding : s.Outstanding

/-- A message on its way is one that the client waits for. -/
theorem Sys.Outstanding.of_data {s : Sys} (h : s.Outstanding) (hdata : 0 < s.data.contents.length) :
    s.data.contents.length = 1 ∧ s.answers = 0 ∧ s.printed.length + 1 = s.client.seqno ∧
      ∃ msg remaining, s.client.phase = .select msg remaining := by
  cases hphase : s.client.phase with
  | select msg remaining =>
      simp only [Sys.Outstanding, hphase] at h
      exact ⟨by omega, by omega, by omega, msg, remaining, rfl⟩
  | fgets | recv | closed =>
      simp only [Sys.Outstanding, hphase] at h
      omega
  | gaveUp => simp [Sys.Outstanding, hphase] at h

/-- Less on its way is as well, as long as an acknowledgement about to be taken stays. -/
theorem Sys.Outstanding.mono {s t : Sys} (h : s.Outstanding) (hclient : t.client = s.client)
    (hprinted : t.printed = s.printed) (hdata : t.data.contents.length ≤ s.data.contents.length)
    (hanswers : t.answers ≤ s.answers) : t.Outstanding := by
  cases hphase : s.client.phase <;>
    simp only [Sys.Outstanding, hclient, hprinted, hphase] at h ⊢ <;>
    omega

theorem Step.oneAtATime (hstep : Step lines s a t) (hok : a ≠ .selectTimeout)
    (h : OneAtATime s) : OneAtATime t := by
  have hout := h.outstanding
  cases hstep with
  | @read l hphase hl =>
      simp only [Sys.Outstanding, hphase] at hout
      obtain ⟨hdata, hanswers, hprinted⟩ := hout
      refine ⟨h.numbered, ?_, ?_⟩
      · intro msg hmsg
        simp only [Sys.send, Channel.contents_send, List.length_eq_zero_iff.mp hdata,
          List.nil_append, List.mem_singleton] at hmsg
        subst hmsg
        exact hprinted.symm
      · simp only [Sys.Outstanding, Sys.send, Sys.answers, Channel.contents_send,
          List.length_append, List.length_singleton] at hanswers ⊢
        omega
  | close hphase =>
      refine ⟨h.numbered, h.next, ?_⟩
      simp only [Sys.Outstanding, hphase] at hout ⊢
      exact hout
  | selectReady hphase hready =>
      refine ⟨h.numbered, h.next, ?_⟩
      have harrived : 0 < s.acks.contents.length := by
        rw [Channel.contents, List.length_append]
        exact Nat.add_pos_left (List.length_pos_iff.mpr hready) _
      simp only [Sys.Outstanding, hphase, Sys.answers] at hout ⊢
      omega
  | resend => exact absurd rfl hok
  | @recv ack acks hphase hacks =>
      refine ⟨h.numbered, h.next, ?_⟩
      have hlength := congrArg List.length (Channel.contents_receive hacks)
      simp only [Sys.Outstanding, hphase, Sys.answers, List.length_cons] at hout hlength ⊢
      omega
  | @print msg data hserver hdata =>
      have hcontents := Channel.contents_receive hdata
      obtain ⟨hone, hanswers, hseqno, m, remaining, hphase⟩ := hout.of_data (by simp [hcontents])
      have hempty : data.contents = [] := by
        rw [hcontents, List.length_cons] at hone
        exact List.length_eq_zero_iff.mp (by omega)
      refine ⟨?_, by simp [hempty], ?_⟩
      · have hline : msg.line = s.printed.length := h.next msg (by simp [hcontents])
        simp [h.numbered, hline, List.range_succ]
      · simp only [Sys.Outstanding, hphase, Sys.answers, hempty, Server.pending,
          List.length_append, List.length_singleton, List.length_nil] at hanswers ⊢
        omega
  | stop hserver =>
      exact ⟨h.numbered, h.next, hout.mono rfl rfl (Nat.le_refl _)
        (by simp [Sys.answers, hserver, Server.pending])⟩
  | acknowledge hserver =>
      exact ⟨h.numbered, h.next, hout.mono rfl rfl (Nat.le_refl _)
        (by simp [Sys.answers, hserver, Server.pending])⟩
  | deliverData hdata =>
      have hperm := Channel.contents_deliver hdata
      exact ⟨h.numbered, fun msg hmsg => h.next msg (hperm.subset hmsg),
        hout.mono rfl rfl hperm.length_eq.le (Nat.le_refl _)⟩
  | dropData hdata =>
      have hsub := Channel.contents_drop hdata
      exact ⟨h.numbered, fun msg hmsg => h.next msg (hsub.subset hmsg),
        hout.mono rfl rfl hsub.length_le (Nat.le_refl _)⟩
  | deliverAck hacks =>
      exact ⟨h.numbered, h.next, hout.mono rfl rfl (Nat.le_refl _)
        (Nat.add_le_add_right (Channel.contents_deliver hacks).length_eq.le _)⟩
  | dropAck hacks =>
      exact ⟨h.numbered, h.next, hout.mono rfl rfl (Nat.le_refl _)
        (Nat.add_le_add_right (Channel.contents_drop hacks).length_le _)⟩

theorem oneAtATime (hok : ∀ a ∈ as, a ≠ .selectTimeout) (h : run lines as = some s) :
    OneAtATime s := by
  refine run_induction OneAtATime ?_ (fun _ _ _ hone ha hstep => hstep.oneAtATime ha hone)
    (Along.of_forall fun _ => hok) h
  exact ⟨rfl, by simp [Sys.init], ⟨rfl, rfl, rfl⟩⟩

/-- The lines that are printed lie between those that the client has passed and those
that it has read. -/
theorem Sys.Outstanding.between {s : Sys} (h : s.Outstanding) :
    s.client.passed ≤ s.printed.length ∧ s.printed.length ≤ s.client.seqno := by
  cases hphase : s.client.phase with
  | gaveUp => simp [Sys.Outstanding, hphase] at h
  | fgets | select | recv | closed =>
      simp only [Sys.Outstanding, hphase] at h
      simp only [Client.passed, hphase]
      omega

/-- Messages that carry the first lines in order have their texts. -/
theorem texts_of_numbered {msgs : List Data} (hcarries : ∀ msg ∈ msgs, Carries lines msg)
    (hnumbered : msgs.map (·.line) = List.range msgs.length) :
    msgs.map (str ·.frame.payload) = (lines.take msgs.length).map (str ·.bytes) := by
  apply List.ext_getElem?
  intro i
  rcases Nat.lt_or_ge i msgs.length with hi | hi
  · obtain ⟨l, hl, hframe⟩ := hcarries msgs[i] (List.getElem_mem hi)
    have hline : msgs[i].line = i := by
      have heq : (msgs.map (·.line))[i]? = (List.range msgs.length)[i]? := by rw [hnumbered]
      simpa [hi] using heq
    rw [hline] at hl
    rw [List.getElem?_map, List.getElem?_map, List.getElem?_take_of_lt hi, hl,
      List.getElem?_eq_getElem hi, Option.map_some, Option.map_some, hframe,
      str_payload_dataFrame]
  · have htake : (lines.take msgs.length).length ≤ i := (List.length_take_le ..).trans hi
    rw [List.getElem?_eq_none (by simpa using hi), List.getElem?_eq_none (by simpa using htake)]

/-- **Stop and wait.** In a run without a timeout the server has printed the first lines
of the input, each once and in order; all that the client has passed are among them, and
never is there more than one datagram on its way. -/
theorem printed_exactly_once (hok : ∀ a ∈ as, a ≠ .selectTimeout) (h : run lines as = some s) :
    ∃ m, s.client.passed ≤ m ∧ m ≤ s.client.seqno ∧
      s.printed.map (·.line) = List.range m ∧
      s.printed.map (str ·.frame.payload) = (lines.take m).map (str ·.bytes) ∧
      s.data.contents.length + s.acks.contents.length ≤ 1 := by
  have hone : OneAtATime s := oneAtATime hok h
  obtain ⟨hpassed, hread⟩ := hone.outstanding.between
  have hcarries : ∀ msg ∈ s.printed, Carries lines msg :=
    fun msg hmsg => (clientLog h).carries msg (sent_of_printed h hmsg)
  refine ⟨s.printed.length, hpassed, hread, hone.numbered, texts_of_numbered hcarries hone.numbered,
    ?_⟩
  have hout := hone.outstanding
  cases hphase : s.client.phase <;>
    simp only [Sys.Outstanding, hphase, Sys.answers] at hout <;>
    omega

/-- Two lines, both acknowledged, and the end of the input. -/
def noTimeout : List Action :=
  let exchange : List Action :=
    [.fgets, .deliverData 0, .recvfrom, .sendto, .deliverAck 0, .selectReady, .recv]
  exchange ++ exchange ++ [.fgets]

theorem printed_exactly_once_noTimeout :
    ∃ s, run ab noTimeout = some s ∧
      ∃ m, s.client.passed ≤ m ∧ m ≤ s.client.seqno ∧
        s.printed.map (·.line) = List.range m ∧
        s.printed.map (str ·.frame.payload) =
          (ab.take m).map (str ·.bytes) ∧
        s.data.contents.length + s.acks.contents.length ≤ 1 := by
  obtain ⟨s, hs⟩ : ∃ s, run ab noTimeout = some s :=
    Option.isSome_iff_exists.mp (by decide +kernel)
  exact ⟨s, hs, printed_exactly_once (by decide) hs⟩

end Osh.UdpAck
