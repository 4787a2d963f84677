import Osh.Lib.Channel
import Osh.Lib.PartialRun
import Osh.Lib.Stdio
import Mathlib.Data.List.Perm.Subperm

/-!
# Lines as datagrams

`UDPclient.c` sends each line of its standard input in a datagram, the terminator included,
and does not look at what `sendto` returns; `UDPserver.c` prints each datagram that it
receives as a string. Nothing is sent twice and nothing is acknowledged, so the network
alone decides what is printed.

## Main definitions

* `message`: the datagram of a line.
* `Sys`, `step`: the two programs and the network between them.
* `Sys.texts`: what is printed, and what will be if it is received.
-/
namespace Osh.Udp
open CString PartialRun Stdio

/-- `sizeof(buf)`, in the client and in the server. -/
def sizeofBuf : ℕ := 1024

/-- The client, the server and the channel between them; `read` lists the lines that the client
has read and `printed` what each `fputs` of the server has written. -/
structure Sys where
  stdin : List Byte
  clientBuf : List Byte
  closed : Bool
  read : List (List Byte)
  data : Channel (List Byte)
  serverBuf : List Byte
  printed : List (List Byte)
  stopped : Bool
deriving DecidableEq, Repr

/-- Neither array is initialised. -/
def Sys.init (stdin clientBuf serverBuf : List Byte) : Sys where
  stdin := stdin
  clientBuf := clientBuf
  closed := false
  read := []
  data := .empty
  serverBuf := serverBuf
  printed := []
  stopped := false

inductive Action
  /-- The client reads the next line and sends it, or closes its socket. -/
  | sendto
  /-- The same, but `sendto` fails. -/
  | sendtoError
  | deliver (i : ℕ)
  | drop (i : ℕ)
  /-- The server receives a datagram and prints it. -/
  | recvfrom
  | recvfromError
deriving DecidableEq, Repr

/-- The network delivers the oldest datagram in flight. -/
def Action.InOrder : Action → Prop
  | .deliver i => i = 0
  | _ => True

/-- A line that was read does not get to the server. -/
def Action.Loses : Action → Prop
  | .sendtoError | .drop _ => True
  | _ => False

instance : DecidablePred Action.InOrder
  | .deliver i => inferInstanceAs (Decidable (i = 0))
  | .sendto | .sendtoError | .drop _ | .recvfrom | .recvfromError =>
      inferInstanceAs (Decidable True)

instance : DecidablePred Action.Loses
  | .sendtoError | .drop _ => inferInstanceAs (Decidable True)
  | .sendto | .deliver _ | .recvfrom | .recvfromError => inferInstanceAs (Decidable False)

/-- The loop body of the client: the line in `buf`, and the `n` bytes from there to send. -/
def Sys.readLine (s : Sys) : Option (Sys × List Byte) :=
  (fgets sizeofBuf s.stdin).map fun (line, stdin) =>
    let clientBuf := store s.clientBuf 0 (line ++ [0])
    let n := strlen clientBuf + 1
    ({ s with stdin, clientBuf, read := s.read ++ [line] }, clientBuf.take n)

/-- One action; `none` where it cannot happen. -/
def step (s : Sys) : Action → Option Sys
  | .sendto =>
      if s.closed then none
      else match s.readLine with
        | none => some { s with closed := true }
        | some (t, msg) => some { t with data := t.data.send msg }
  | .sendtoError =>
      if s.closed then none else s.readLine.map Prod.fst
  | .deliver i => (s.data.deliver i).map fun data => { s with data }
  | .drop i => (s.data.drop i).map fun data => { s with data }
  | .recvfrom =>
      if s.stopped then none
      else do
        let (msg, data) ← s.data.receive
        -- what does not fit into the array is cut off
        let serverBuf := store s.serverBuf 0 (msg.take sizeofBuf)
        some { s with data, serverBuf, printed := s.printed ++ [str serverBuf] }
  | .recvfromError => if s.stopped then none else some { s with stopped := true }

/-- The system after the given actions. -/
def run (stdin clientBuf serverBuf : List Byte) (as : List Action) : Option Sys :=
  exec step as (.init stdin clientBuf serverBuf)

/-- The datagram of a line. -/
def message (line : List Byte) : List Byte := str line ++ [0]

/-- The lines of the input. -/
def inputLines (stdin : List Byte) : List (List Byte) := linesOf sizeofBuf (by decide) stdin

/-- The client sends lines of its input, and only those; what the server prints of them ends
before its array does. -/
structure FromInput (stdin : List Byte) (s : Sys) : Prop where
  read : s.read ++ inputLines s.stdin = inputLines stdin
  closed : s.closed = true → s.stdin = []
  messages : ∀ msg ∈ s.data.contents, ∃ line, line.length < sizeofBuf ∧ msg = message line
  printed : ∀ text ∈ s.printed, text.length < sizeofBuf

section
variable {s t : Sys} {a : Action} {as : List Action} {stdin clientBuf serverBuf msg : List Byte}

theorem length_str_le (m : List Byte) : (str m).length ≤ m.length :=
  (List.takeWhile_prefix _).length_le

theorem inputLines_of_fgets {line rest : List Byte}
    (h : fgets sizeofBuf stdin = some (line, rest)) :
    inputLines stdin = line :: inputLines rest := linesOf_of_fgets _ _ _ h

/-- A datagram of the client fits into the array of the server, and its NUL with it. -/
theorem length_message_le {line : List Byte} (h : line.length < sizeofBuf) :
    (message line).length ≤ sizeofBuf := by
  have hle : (str line).length ≤ line.length := length_str_le line
  rw [message, List.length_append, List.length_singleton]
  omega

theorem readLine_eq_some (h : s.readLine = some (t, msg)) : ∃ line,
    fgets sizeofBuf s.stdin = some (line, t.stdin) ∧ msg = message line ∧
      t.read = s.read ++ [line] ∧ t.data = s.data ∧ t.printed = s.printed ∧
      t.closed = s.closed := by
  obtain ⟨⟨line, stdin⟩, hline, heq⟩ := Option.map_eq_some_iff.mp h
  cases heq
  refine ⟨line, hline, ?_, rfl, rfl, rfl, rfl⟩
  rw [store_line, take_strlen_succ, message]

/-- What a received message of the client prints. -/
theorem str_store_message {line : List Byte} (hline : line.length < sizeofBuf) (m : List Byte) :
    str (store m 0 ((message line).take sizeofBuf)) = str line := by
  rw [List.take_of_length_le (length_message_le hline), message, str_store_line]
  exact str_of_notMem (notMem_str line)

/-! ## What a step changes -/

/-- What can happen to the client, the channel and the server. -/
theorem step_cases (h : step s a = some t) :
    (s.stdin = [] ∧ a = .sendto ∧ t = { s with closed := true }) ∨
    (∃ line, fgets sizeofBuf s.stdin = some (line, t.stdin) ∧ t.read = s.read ++ [line] ∧
      t.printed = s.printed ∧ t.closed = s.closed ∧
      (t.data = s.data.send (message line) ∨ a.Loses ∧ t.data = s.data)) ∨
    (∃ i data, a = .deliver i ∧ s.data.deliver i = some data ∧ t = { s with data }) ∨
    (∃ i data, a = .drop i ∧ s.data.drop i = some data ∧ t = { s with data }) ∨
    (∃ msg data, s.data.receive = some (msg, data) ∧
      t = { s with data, serverBuf := store s.serverBuf 0 (msg.take sizeofBuf),
                   printed := s.printed ++ [str (store s.serverBuf 0 (msg.take sizeofBuf))] }) ∨
    t = { s with stopped := true } := by
  cases a with
  | sendto =>
      simp only [step] at h
      split at h
      · cases h
      · split at h
        · rename_i hnone
          cases h
          have hend : fgets sizeofBuf s.stdin = none := Option.map_eq_none_iff.mp hnone
          exact .inl ⟨fgets_eq_none_iff.mp hend, rfl, rfl⟩
        · rename_i u msg hread
          cases h
          obtain ⟨line, hline, rfl, hlines, hdata, hprinted, hclosed⟩ := readLine_eq_some hread
          exact .inr (.inl ⟨line, hline, hlines, hprinted, hclosed, .inl (by rw [← hdata])⟩)
  | sendtoError =>
      simp only [step] at h
      split at h
      · cases h
      · obtain ⟨⟨u, msg⟩, hread, rfl⟩ := Option.map_eq_some_iff.mp h
        obtain ⟨line, hline, -, hlines, hdata, hprinted, hclosed⟩ := readLine_eq_some hread
        exact .inr (.inl ⟨line, hline, hlines, hprinted, hclosed, .inr ⟨trivial, hdata⟩⟩)
  | deliver i =>
      obtain ⟨data, hdata, rfl⟩ := Option.map_eq_some_iff.mp h
      exact .inr (.inr (.inl ⟨i, data, rfl, hdata, rfl⟩))
  | drop i =>
      obtain ⟨data, hdata, rfl⟩ := Option.map_eq_some_iff.mp h
      exact .inr (.inr (.inr (.inl ⟨i, data, rfl, hdata, rfl⟩)))
  | recvfrom =>
      simp only [step] at h
      split at h
      · cases h
      · obtain ⟨⟨msg, data⟩, hdata, h⟩ := Option.bind_eq_some_iff.mp h
        cases h
        exact .inr (.inr (.inr (.inr (.inl ⟨msg, data, hdata, rfl⟩))))
  | recvfromError =>
      simp only [step] at h
      split at h
      · cases h
      · cases h
        exact .inr (.inr (.inr (.inr (.inr rfl))))

/-! ## Runs -/

theorem FromInput.step (h : FromInput stdin s) (hstep : step s a = some t) :
    FromInput stdin t := by
  rcases step_cases hstep with ⟨hend, -, rfl⟩ | ⟨line, hline, hread, hprinted, hclosed, hdata⟩ |
    ⟨i, data, -, hdata, rfl⟩ | ⟨i, data, -, hdata, rfl⟩ | ⟨msg, data, hdata, rfl⟩ | rfl
  · exact ⟨h.read, fun _ => hend, h.messages, h.printed⟩
  · refine ⟨?_, ?_, ?_, hprinted ▸ h.printed⟩
    · rw [hread, ← h.read, inputLines_of_fgets hline, List.append_assoc]
      rfl
    · intro ht
      rw [h.closed (hclosed ▸ ht)] at hline
      cases hline
    · intro msg hmsg
      rcases hdata with hsent | ⟨-, hlost⟩
      · rw [hsent, Channel.contents_send] at hmsg
        rcases List.mem_append.mp hmsg with hmsg | hmsg
        · exact h.messages msg hmsg
        · exact ⟨line, length_lt_of_fgets (by decide) hline, List.mem_singleton.mp hmsg⟩
      · exact h.messages msg (hlost ▸ hmsg)
  · refine ⟨h.read, h.closed, ?_, h.printed⟩
    exact fun msg hmsg => h.messages msg ((Channel.contents_deliver hdata).subset hmsg)
  · refine ⟨h.read, h.closed, ?_, h.printed⟩
    exact fun msg hmsg => h.messages msg ((Channel.contents_drop hdata).subset hmsg)
  · have hcontents := Channel.contents_receive hdata
    refine ⟨h.read, h.closed, ?_, ?_⟩
    · intro m hm
      exact h.messages m (hcontents ▸ List.mem_cons_of_mem msg hm)
    · intro text htext
      rcases List.mem_append.mp htext with htext | htext
      · exact h.printed text htext
      · obtain ⟨line, hline, rfl⟩ := h.messages msg (hcontents ▸ List.mem_cons_self ..)
        rw [List.mem_singleton.mp htext, str_store_message hline]
        exact Nat.lt_of_le_of_lt (length_str_le line) hline
  · exact ⟨h.read, h.closed, h.messages, h.printed⟩

end
end Osh.Udp
