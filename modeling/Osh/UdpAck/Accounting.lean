import Osh.UdpAck.Protocol
import Mathlib.Algebra.Group.Nat.Defs
import Mathlib.Data.List.Count
import Mathlib.Data.List.Perm.Subperm

/-!
# Where the datagrams are

Three invariants of the whole system, each about one part of it. The messages that the
server has printed and those on their way to it are among those that the client has
sent, in the same order when the network keeps it. What the client has sent follows the
input, with a bounded number of copies of each line. The acknowledgements on their way
to the client are for messages that were printed.

## Main definitions

* `Sys.copies`: the messages printed or on their way to the server.
* `SentLog`, `ClientLog`: what the client has sent, and what it may still send.
* `Acknowledges`: every acknowledgement is for a printed message.
-/
namespace Osh.UdpAck
open PartialRun

variable {lines : List Line} {s t : Sys} {a : Action} {as : List Action}

/-! ## From the client to the server -/

/-- The messages that were sent and not lost: those printed, then those on their way. -/
def Sys.copies (s : Sys) : List Data := s.printed ++ s.data.contents

/-- A step sends one message more, or loses or reorders some of those there are. -/
theorem Step.copies (h : Step lines s a t) :
    (∃ msg, t.sent = s.sent ++ [msg] ∧ t.copies = s.copies ++ [msg]) ∨
      t.sent = s.sent ∧
        (t.copies.Sublist s.copies ∨ ¬ a.InOrder ∧ t.copies.Perm s.copies) := by
  cases h with
  | read => exact .inl ⟨_, rfl, by simp [Sys.copies, Sys.send]⟩
  | resend => exact .inl ⟨_, rfl, by simp [Sys.copies, Sys.send]⟩
  | close | selectReady | recv | stop | acknowledge | deliverAck | dropAck =>
      exact .inr ⟨rfl, .inl (List.Sublist.refl _)⟩
  | print _ hdata =>
      refine .inr ⟨rfl, .inl ?_⟩
      simp [Sys.copies, Channel.contents_receive hdata]
  | @deliverData i data h =>
      refine .inr ⟨rfl, ?_⟩
      by_cases hi : i = 0
      · subst hi
        exact .inl (by simp [Sys.copies, Channel.contents_deliver_zero h])
      · exact .inr ⟨hi, (Channel.contents_deliver h).append_left _⟩
  | dropData h => exact .inr ⟨rfl, .inl ((Channel.contents_drop h).append_left _)⟩

/-- Whatever the network does, it neither makes up messages nor duplicates them. -/
theorem copies_subperm (h : run lines as = some s) : s.copies.Subperm s.sent := by
  refine run_induction (fun s => s.copies.Subperm s.sent) (List.Subperm.refl _) ?_
    (Along.of_forall fun _ _ _ => trivial) h
  intro s a t ih _ hstep
  rcases hstep.copies with ⟨msg, hsent, hcopies⟩ | ⟨hsent, hsub | ⟨-, hperm⟩⟩
  · rw [hsent, hcopies]
    exact (List.subperm_append_right [msg]).mpr ih
  · rw [hsent]
    exact hsub.subperm.trans ih
  · rw [hsent]
    exact hperm.subperm.trans ih

/-- A network that keeps the order only loses messages. -/
theorem copies_sublist (hfifo : ∀ a ∈ as, a.InOrder) (h : run lines as = some s) :
    s.copies.Sublist s.sent := by
  refine run_induction (fun s => s.copies.Sublist s.sent) (List.Sublist.refl _) ?_
    (Along.of_forall fun _ => hfifo) h
  intro s a t ih ha hstep
  rcases hstep.copies with ⟨msg, hsent, hcopies⟩ | ⟨hsent, hsub | ⟨hreorder, -⟩⟩
  · rw [hsent, hcopies]
    exact ih.append_right [msg]
  · rw [hsent]
    exact hsub.trans ih
  · exact absurd ha hreorder

/-! ## What the client sends -/

/-- How often the line at a position occurs among the given messages. -/
def copiesOf (k : ℕ) (msgs : List Data) : ℕ := msgs.countP (·.line = k)

theorem copiesOf_append {k : ℕ} {msgs : List Data} {msg : Data} :
    copiesOf k (msgs ++ [msg]) = copiesOf k msgs + if msg.line = k then 1 else 0 := by
  simp [copiesOf, List.countP_singleton]

/-- A message carries the line it is marked with. -/
def Carries (lines : List Line) (msg : Data) : Prop :=
  ∃ l, lines[msg.line]? = some l ∧ msg.frame = dataFrame (msg.line + 1) l

/-- After reading `n` lines: all messages carry lines that were read, line after line,
each at most `NRETRIES + 1` times. -/
structure SentLog (lines : List Line) (n : ℕ) (sent : List Data) : Prop where
  inRange : n ≤ lines.length
  read : ∀ msg ∈ sent, msg.line < n
  carries : ∀ msg ∈ sent, Carries lines msg
  ordered : (sent.map (·.line)).Pairwise (· ≤ ·)
  bounded : ∀ k, copiesOf k sent ≤ NRETRIES + 1

theorem SentLog.unread {n k : ℕ} {sent : List Data} (h : SentLog lines n sent) (hk : n ≤ k) :
    copiesOf k sent = 0 := by
  apply List.countP_eq_zero.mpr
  intro msg hmsg
  have hlt : msg.line < n := h.read msg hmsg
  simp only [decide_eq_true_eq]
  omega

/-- One copy more of the line read last. -/
theorem SentLog.send {n n' : ℕ} {sent : List Data} {msg : Data} (h : SentLog lines n sent)
    (hline : msg.line + 1 = n') (hn : n ≤ n') (hmsg : Carries lines msg)
    (hcount : copiesOf msg.line sent ≤ NRETRIES) : SentLog lines n' (sent ++ [msg]) where
  inRange := by
    obtain ⟨l, hl, -⟩ := hmsg
    have hlt : msg.line < lines.length := (List.getElem?_eq_some_iff.mp hl).1
    omega
  read := by
    intro m hm
    rcases List.mem_append.mp hm with hm | hm
    · exact Nat.lt_of_lt_of_le (h.read m hm) hn
    · obtain rfl := List.mem_singleton.mp hm
      omega
  carries := by
    intro m hm
    rcases List.mem_append.mp hm with hm | hm
    · exact h.carries m hm
    · rwa [List.mem_singleton.mp hm]
  ordered := by
    rw [List.map_append, List.pairwise_append]
    refine ⟨h.ordered, List.pairwise_singleton .., ?_⟩
    intro k hk k' hk'
    obtain ⟨m, hm, rfl⟩ := List.mem_map.mp hk
    have hlt : m.line < n := h.read m hm
    simp only [List.map_cons, List.map_nil, List.mem_singleton] at hk'
    omega
  bounded := by
    intro k
    have hk : copiesOf k sent ≤ NRETRIES + 1 := h.bounded k
    rw [copiesOf_append]
    split
    · rename_i heq
      rw [← heq]
      omega
    · omega

/-- The log of the client, and what the message in hand may add to it. -/
structure ClientLog (lines : List Line) (client : Client) (sent : List Data) : Prop
    extends SentLog lines client.seqno sent where
  current : ∀ msg remaining, client.phase = .select msg remaining →
    msg.line + 1 = client.seqno ∧ Carries lines msg ∧
      copiesOf msg.line sent + remaining ≤ NRETRIES + 1

/-- **What the client has sent follows its input**, whatever happens to it. -/
theorem Step.clientLog (hstep : Step lines s a t) (h : ClientLog lines s.client s.sent) :
    ClientLog lines t.client t.sent := by
  -- steps of the client that send nothing leave `select` behind
  have hother : ∀ phase, (∀ msg remaining, phase ≠ .select msg remaining) →
      ClientLog lines { s.client with phase } s.sent := by
    intro phase hphase
    exact ⟨h.toSentLog, fun msg remaining heq => absurd heq (hphase msg remaining)⟩
  cases hstep with
  | @read l hphase hl =>
      have hcarries : Carries lines ⟨s.client.seqno, dataFrame (s.client.seqno + 1) l⟩ :=
        ⟨l, hl, rfl⟩
      have hunread : copiesOf s.client.seqno s.sent = 0 := h.unread (Nat.le_refl _)
      refine ⟨h.send rfl (Nat.le_succ _) hcarries (by simp [hunread]), ?_⟩
      rintro msg remaining heq
      cases heq
      refine ⟨rfl, hcarries, ?_⟩
      simp only [Sys.send, copiesOf_append, hunread, if_true]
      omega
  | @resend msg remaining hphase =>
      obtain ⟨hline, hcarries, hcount⟩ := h.current msg _ hphase
      refine ⟨h.send hline (Nat.le_refl _) hcarries (by omega), ?_⟩
      intro m r heq
      split at heq
      · cases heq
      · cases heq
        refine ⟨hline, hcarries, ?_⟩
        simp only [Sys.send, copiesOf_append, if_true]
        omega
  | close => exact hother .closed (by simp)
  | selectReady => exact hother .recv (by simp)
  | recv => exact hother .fgets (by simp)
  | print | stop | acknowledge | deliverData | dropData | deliverAck | dropAck => exact h

theorem clientLog (h : run lines as = some s) : ClientLog lines s.client s.sent := by
  refine run_induction (fun s => ClientLog lines s.client s.sent) ?_ ?_
    (Along.of_forall fun _ _ _ => trivial) h
  · exact ⟨⟨Nat.zero_le _, by simp [Sys.init], by simp [Sys.init], by simp [Sys.init],
      by simp [Sys.init, copiesOf]⟩, by simp [Sys.init]⟩
  · intro s a t ih _ hstep
    exact hstep.clientLog ih

/-- Fewer than 2^32 lines get different numbers. -/
theorem Carries.mseqn {msg : Data} (hlen : lines.length < 2 ^ 32) (h : Carries lines msg) :
    msg.frame.mseqn.toNat = msg.line + 1 := by
  obtain ⟨l, hl, hframe⟩ := h
  have hlt : msg.line < lines.length := (List.getElem?_eq_some_iff.mp hl).1
  rw [hframe]
  exact Nat.mod_eq_of_lt (by omega)

/-- The server prints what the client has sent. -/
theorem sent_of_printed (h : run lines as = some s) {msg : Data} (hmsg : msg ∈ s.printed) :
    msg ∈ s.sent := (copies_subperm h).subset (List.mem_append_left _ hmsg)

/-! ## From the server to the client -/

/-- An acknowledgement is for one of the printed messages. -/
def AckOf (printed : List Data) (ack : Acknowledgement) : Prop :=
  ∃ msg ∈ printed, ack = ⟨msg.line, ackFrame msg.frame⟩

/-- The acknowledgements that the client may still receive are for printed messages, and
so is the one that the server is about to send. -/
structure Acknowledges (s : Sys) : Prop where
  acks : ∀ ack ∈ s.acks.contents, AckOf s.printed ack
  current : ∀ msg, s.server = .sendto msg → msg ∈ s.printed

theorem Step.acknowledges (hstep : Step lines s a t) (h : Acknowledges s) : Acknowledges t := by
  cases hstep with
  | read | resend | close | selectReady | deliverData | dropData => exact ⟨h.acks, h.current⟩
  | stop => exact ⟨h.acks, by simp⟩
  | @recv ack acks _ hacks =>
      refine ⟨fun b hb => h.acks b ?_, h.current⟩
      rw [Channel.contents_receive hacks]
      exact List.mem_cons_of_mem ack hb
  | @print msg data _ _ =>
      refine ⟨?_, by simp⟩
      intro b hb
      obtain ⟨m, hm, rfl⟩ := h.acks b hb
      exact ⟨m, List.mem_append_left _ hm, rfl⟩
  | @acknowledge msg hserver =>
      refine ⟨?_, by simp⟩
      intro b hb
      rcases List.mem_append.mp (Channel.contents_send ▸ hb) with hb | hb
      · exact h.acks b hb
      · exact ⟨msg, h.current msg hserver, List.mem_singleton.mp hb⟩
  | deliverAck hacks =>
      refine ⟨fun b hb => h.acks b ?_, h.current⟩
      exact (Channel.contents_deliver hacks).subset hb
  | dropAck hacks =>
      refine ⟨fun b hb => h.acks b ?_, h.current⟩
      exact (Channel.contents_drop hacks).subset hb

theorem acknowledges (h : run lines as = some s) : Acknowledges s := by
  refine run_induction Acknowledges ⟨by simp [Sys.init], by simp [Sys.init]⟩ ?_
    (Along.of_forall fun _ _ _ => trivial) h
  intro s a t ih _ hstep
  exact hstep.acknowledges ih

end Osh.UdpAck
