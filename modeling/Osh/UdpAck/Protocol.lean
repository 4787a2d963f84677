import Osh.Lib.Channel
import Osh.Lib.CString
import Osh.Lib.PartialRun

/-!
# UDP with acknowledgements

`UDPACKclient` sends each line of its standard input as a datagram and waits for an
acknowledgement, sending the datagram again when none arrives in time;
`UDPACKserver` prints what it receives and acknowledges it. The two run side by side
over two channels, one for data and one for acknowledgements.

## Main definitions

* `DataFrame`, `AckFrame`: the frames of `udp_ack.h`.
* `Client`, `Server`, `Sys`: the two programs between their system calls, and the whole.
* `step`: one action of the client, of the server or of the network.
* `Step`: the same as a relation, one constructor for each thing that can happen.
* `run`: the actions of a list, one after the other.
-/
namespace Osh.UdpAck
open PartialRun CString

/-! ## `udp_ack.h` -/

def DATA : BitVec 16 := 1
def ACK : BitVec 16 := 2
def PAYLOAD_SIZE : ℕ := 256
/-- The number of retransmissions before giving up. -/
def NRETRIES : ℕ := 10

/-- A data frame as it is sent: the numbers are those that the bytes in network order
stand for, and the payload ends with its first NUL. -/
structure DataFrame where
  mtype : BitVec 16
  mseqn : BitVec 32
  payload : List Byte
deriving DecidableEq, Repr

structure AckFrame where
  mtype : BitVec 16
  mseqn : BitVec 32
deriving DecidableEq, Repr

/-! ## Lines and strings -/

/-- What one successful call of `fgets` puts into the payload, without the NUL behind it. -/
structure Line where
  bytes : List Byte
  nonempty : bytes ≠ []
  fits : bytes.length < PAYLOAD_SIZE
deriving DecidableEq, Repr

/-- The frame that carries a line under its sequence number, cut to the length that is sent. -/
def dataFrame (seqno : ℕ) (l : Line) : DataFrame where
  mtype := DATA
  mseqn := BitVec.ofNat 32 seqno
  payload := (l.bytes ++ [0]).take (strlen (l.bytes ++ [0]) + 1)

/-- The message that is sent is the line up to its first NUL, and a NUL. -/
@[simp] theorem payload_dataFrame (n : ℕ) (l : Line) :
    (dataFrame n l).payload = str l.bytes ++ [0] := take_strlen_succ l.bytes []

/-- What `fputs` writes of a received message is the line as a string. -/
@[simp] theorem str_payload_dataFrame (n : ℕ) (l : Line) :
    str (dataFrame n l).payload = str l.bytes := by
  rw [payload_dataFrame, str_append_nul, str_of_notMem (notMem_str l.bytes)]

/-- The frame that acknowledges a data frame. -/
def ackFrame (msg : DataFrame) : AckFrame where
  mtype := ACK
  mseqn := msg.mseqn

/-! ## The two programs and the network -/

/-- A frame on the network, marked with the position of the line it was sent for. The
mark is not in the datagram: no step of a program depends on it. -/
structure Datagram (φ : Type) where
  line : ℕ
  frame : φ
deriving DecidableEq, Repr

abbrev Data := Datagram DataFrame
abbrev Acknowledgement := Datagram AckFrame

/-- Where the client stands: about to read a line, waiting for an acknowledgement of the
message it sent with some retransmissions remaining, about to take the acknowledgement
that has arrived, or finished at the end of the input or after the last retransmission. -/
inductive ClientPhase
  | fgets
  | select (msg : Data) (remaining : ℕ)
  | recv
  | closed
  | gaveUp
deriving DecidableEq, Repr

/-- `seqno` counts the lines read. -/
structure Client where
  phase : ClientPhase
  seqno : ℕ
deriving DecidableEq, Repr

/-- Where the server stands: about to receive, about to acknowledge the message it has
printed, or stopped by a failing `recvfrom`. -/
inductive Server
  | recvfrom
  | sendto (msg : Data)
  | stopped
deriving DecidableEq, Repr

/-- The client, the server and the channels between them; `sent` lists the messages that
the client has sent and `printed` those whose payload the server has printed. -/
structure Sys where
  client : Client
  server : Server
  data : Channel Data
  acks : Channel Acknowledgement
  sent : List Data
  printed : List Data
deriving DecidableEq, Repr

def Sys.init : Sys where
  client := ⟨.fgets, 0⟩
  server := .recvfrom
  data := .empty
  acks := .empty
  sent := []
  printed := []

/-- The client sends a message. -/
def Sys.send (s : Sys) (msg : Data) : Sys :=
  { s with data := s.data.send msg, sent := s.sent ++ [msg] }

inductive Action
  /-- The client reads the next line and sends it, or finishes. -/
  | fgets
  /-- The client's `select` returns because an acknowledgement has arrived. -/
  | selectReady
  /-- The client's `select` returns without one and the message is sent again. -/
  | selectTimeout
  /-- The client takes the acknowledgement. -/
  | recv
  /-- The server receives a message and prints it. -/
  | recvfrom
  /-- The server's `recvfrom` fails. -/
  | recvfromError
  /-- The server acknowledges. -/
  | sendto
  | deliverData (i : ℕ)
  | dropData (i : ℕ)
  | deliverAck (i : ℕ)
  | dropAck (i : ℕ)
deriving DecidableEq, Repr

/-- The network does not reorder: it delivers the oldest datagram in flight. -/
def Action.InOrder : Action → Prop
  | .deliverData i => i = 0
  | .deliverAck i => i = 0
  | _ => True

instance : DecidablePred Action.InOrder
  | .deliverData i => inferInstanceAs (Decidable (i = 0))
  | .deliverAck i => inferInstanceAs (Decidable (i = 0))
  | .fgets | .selectReady | .selectTimeout | .recv | .recvfrom | .recvfromError | .sendto
  | .dropData _ | .dropAck _ => inferInstanceAs (Decidable True)

/-- One action, on the given input lines; `none` where it cannot happen. -/
def step (lines : List Line) (s : Sys) : Action → Option Sys
  | .fgets =>
      match s.client.phase with
      | .fgets =>
          match lines[s.client.seqno]? with
          | none => some { s with client := { s.client with phase := .closed } }
          | some l =>
              let seqno := s.client.seqno + 1
              let msg := ⟨s.client.seqno, dataFrame seqno l⟩
              some { s.send msg with client := ⟨.select msg NRETRIES, seqno⟩ }
      | _ => none
  | .selectReady =>
      match s.client.phase with
      | .select _ _ =>
          if s.acks.buffer = [] then none
          else some { s with client := { s.client with phase := .recv } }
      | _ => none
  | .selectTimeout =>
      match s.client.phase with
      | .select msg (remaining + 1) =>
          let phase := if remaining = 0 then .gaveUp else .select msg remaining
          some { s.send msg with client := { s.client with phase } }
      | _ => none
  | .recv =>
      match s.client.phase with
      | .recv => do
          -- neither the type nor the number of the acknowledgement is looked at
          let (_, acks) ← s.acks.receive
          some { s with acks, client := { s.client with phase := .fgets } }
      | _ => none
  | .recvfrom =>
      match s.server with
      | .recvfrom => do
          let (msg, data) ← s.data.receive
          some { s with data, printed := s.printed ++ [msg], server := .sendto msg }
      | _ => none
  | .recvfromError =>
      match s.server with
      | .recvfrom => some { s with server := .stopped }
      | _ => none
  | .sendto =>
      match s.server with
      | .sendto msg =>
          some { s with acks := s.acks.send ⟨msg.line, ackFrame msg.frame⟩, server := .recvfrom }
      | _ => none
  | .deliverData i => (s.data.deliver i).map fun data => { s with data }
  | .dropData i => (s.data.drop i).map fun data => { s with data }
  | .deliverAck i => (s.acks.deliver i).map fun acks => { s with acks }
  | .dropAck i => (s.acks.drop i).map fun acks => { s with acks }

/-- What can happen, and what it changes. -/
inductive Step (lines : List Line) (s : Sys) : Action → Sys → Prop
  | read {l : Line} (hphase : s.client.phase = .fgets) (hl : lines[s.client.seqno]? = some l) :
      Step lines s .fgets { s.send ⟨s.client.seqno, dataFrame (s.client.seqno + 1) l⟩ with
        client := ⟨.select ⟨s.client.seqno, dataFrame (s.client.seqno + 1) l⟩ NRETRIES,
          s.client.seqno + 1⟩ }
  | close (hphase : s.client.phase = .fgets) (hend : lines.length ≤ s.client.seqno) :
      Step lines s .fgets { s with client := { s.client with phase := .closed } }
  | selectReady {msg : Data} {remaining : ℕ} (hphase : s.client.phase = .select msg remaining)
      (hready : s.acks.buffer ≠ []) :
      Step lines s .selectReady { s with client := { s.client with phase := .recv } }
  | resend {msg : Data} {remaining : ℕ} (hphase : s.client.phase = .select msg (remaining + 1)) :
      Step lines s .selectTimeout { s.send msg with client := { s.client with
        phase := if remaining = 0 then .gaveUp else .select msg remaining } }
  | recv {ack : Acknowledgement} {acks : Channel Acknowledgement} (hphase : s.client.phase = .recv)
      (hacks : s.acks.receive = some (ack, acks)) :
      Step lines s .recv { s with acks := acks, client := { s.client with phase := .fgets } }
  | print {msg : Data} {data : Channel Data} (hserver : s.server = .recvfrom)
      (hdata : s.data.receive = some (msg, data)) :
      Step lines s .recvfrom
        { s with data := data, printed := s.printed ++ [msg], server := .sendto msg }
  | stop (hserver : s.server = .recvfrom) :
      Step lines s .recvfromError { s with server := .stopped }
  | acknowledge {msg : Data} (hserver : s.server = .sendto msg) :
      Step lines s .sendto { s with
        acks := s.acks.send ⟨msg.line, ackFrame msg.frame⟩, server := .recvfrom }
  | deliverData {i : ℕ} {data : Channel Data} (h : s.data.deliver i = some data) :
      Step lines s (.deliverData i) { s with data := data }
  | dropData {i : ℕ} {data : Channel Data} (h : s.data.drop i = some data) :
      Step lines s (.dropData i) { s with data := data }
  | deliverAck {i : ℕ} {acks : Channel Acknowledgement} (h : s.acks.deliver i = some acks) :
      Step lines s (.deliverAck i) { s with acks := acks }
  | dropAck {i : ℕ} {acks : Channel Acknowledgement} (h : s.acks.drop i = some acks) :
      Step lines s (.dropAck i) { s with acks := acks }

variable {lines : List Line} {s t : Sys} {a : Action}

/-- The step function does nothing else. -/
theorem Step.of_step (h : step lines s a = some t) : Step lines s a t := by
  cases a with
  | fgets =>
      simp only [step] at h
      split at h
      · rename_i hphase
        split at h
        · rename_i hend
          cases h
          exact .close hphase (List.getElem?_eq_none_iff.mp hend)
        · rename_i l hl
          cases h
          exact .read hphase hl
      · cases h
  | selectReady =>
      simp only [step] at h
      split at h
      · rename_i hphase
        split at h
        · cases h
        · rename_i hready
          cases h
          exact .selectReady hphase hready
      · cases h
  | selectTimeout =>
      simp only [step] at h
      split at h
      · rename_i hphase
        cases h
        exact .resend hphase
      · cases h
  | recv =>
      simp only [step] at h
      split at h
      · rename_i hphase
        obtain ⟨⟨ack, acks⟩, hacks, h⟩ := Option.bind_eq_some_iff.mp h
        cases h
        exact .recv hphase hacks
      · cases h
  | recvfrom =>
      simp only [step] at h
      split at h
      · rename_i hserver
        obtain ⟨⟨msg, data⟩, hdata, h⟩ := Option.bind_eq_some_iff.mp h
        cases h
        exact .print hserver hdata
      · cases h
  | recvfromError =>
      simp only [step] at h
      split at h
      · rename_i hserver
        cases h
        exact .stop hserver
      · cases h
  | sendto =>
      simp only [step] at h
      split at h
      · rename_i msg hserver
        cases h
        exact .acknowledge hserver
      · cases h
  | deliverData i =>
      obtain ⟨data, hdata, rfl⟩ := Option.map_eq_some_iff.mp h
      exact .deliverData hdata
  | dropData i =>
      obtain ⟨data, hdata, rfl⟩ := Option.map_eq_some_iff.mp h
      exact .dropData hdata
  | deliverAck i =>
      obtain ⟨acks, hacks, rfl⟩ := Option.map_eq_some_iff.mp h
      exact .deliverAck hacks
  | dropAck i =>
      obtain ⟨acks, hacks, rfl⟩ := Option.map_eq_some_iff.mp h
      exact .dropAck hacks

/-- The function and the relation say the same. -/
theorem step_eq_some_iff : step lines s a = some t ↔ Step lines s a t := by
  constructor
  · exact Step.of_step
  · intro h
    cases h with
    | read hphase hl => simp [step, hphase, hl]
    | close hphase hend => simp [step, hphase, List.getElem?_eq_none hend]
    | selectReady hphase hready => simp [step, hphase, hready]
    | resend hphase => simp [step, hphase]
    | recv hphase hacks => simp [step, hphase, hacks]
    | print hserver hdata => simp [step, hserver, hdata]
    | stop hserver => simp [step, hserver]
    | acknowledge hserver => simp [step, hserver]
    | deliverData h => simp [step, h]
    | dropData h => simp [step, h]
    | deliverAck h => simp [step, h]
    | dropAck h => simp [step, h]

/-! ## Runs -/

/-- The system after the given actions, from its start. -/
def run (lines : List Line) (as : List Action) : Option Sys := exec (step lines) as .init

/-- What holds at the start and is kept by every step that meets the condition holds
after every run whose steps all meet it. -/
theorem run_induction {ok : Sys → Action → Prop} (P : Sys → Prop) (h0 : P .init)
    (hstep : ∀ s a t, P s → ok s a → Step lines s a t → P t) {as : List Action}
    (hok : Along ok (step lines) as .init) (h : run lines as = some s) : P s := by
  refine exec_induction P ?_ h0 hok h
  intro s a t hP hsa hstep'
  exact hstep s a t hP hsa (step_eq_some_iff.mp hstep')

end Osh.UdpAck
