import Osh.Lib.PartialRun
import Osh.Lib.Stdio
import Osh.TcpServer.Copy

/-!
# The client of the copying server

`TCPclient.c` sends each line of its standard input, as a string, over the connection; it
stops with an error when `send` does not take all of it. What arrives at `TCPserver` is the
stream in other pieces. From one standard stream to the other the two copy the input up to
the bytes that follow a NUL in its line.

## Main definitions

* `Client`, `turn`: the variables of the client, and one turn of its loop.
* `inputStrings`: what the client is to send.
-/
namespace Osh.TcpClient
open CString PartialRun Stdio

/-- `sizeof(buf)` -/
def sizeofBuf : ℕ := 1024

/-- In the loop, or out of `main` with a return value. -/
inductive Status
  | looping
  | returned (code : ℤ)
deriving DecidableEq, Repr

structure Client where
  stdin : List Byte
  buf : List Byte
  /-- What `send` has taken. -/
  stream : List Byte
  status : Status
deriving DecidableEq, Repr

/-- The variables before the loop; `buf` is not initialised. -/
def start (stdin buf : List Byte) : Client := ⟨stdin, buf, [], .looping⟩

/-- One turn of the loop, for the result of `send`: the number of bytes taken, or an error.
`send` takes no more than it is given. -/
def turn (c : Client) (result : Option ℕ) : Option Client :=
  match c.status with
  | .returned _ => none
  | .looping =>
      match fgets sizeofBuf c.stdin with
      | none => some { c with status := .returned 0 }
      | some (line, stdin) =>
          let buf := store c.buf 0 (line ++ [0])
          let len := strlen buf
          match result with
          | none => some { c with stdin, buf, status := .returned (-1) }
          | some n =>
              if len < n then none
              else some { stdin, buf, stream := c.stream ++ buf.take n,
                          status := if n = len then .looping else .returned (-1) }

/-- What the client is to send: the lines of its input, each up to its first NUL. -/
def inputStrings (stdin : List Byte) : List Byte :=
  (linesOf sizeofBuf (by decide) stdin).flatMap str

/-- What has been sent is what was to be sent first, and all of it where `main` returns 0. -/
structure Sends (total : List Byte) (c : Client) : Prop where
  isPrefix : c.stream <+: total
  looping : c.status = .looping → c.stream ++ inputStrings c.stdin = total
  complete : c.status = .returned 0 → c.stream = total

section
variable {stdin buf line rest total : List Byte} {c d : Client} {result : Option ℕ}
  {results : List (Option ℕ)}

theorem inputStrings_of_fgets (h : fgets sizeofBuf stdin = some (line, rest)) :
    inputStrings stdin = str line ++ inputStrings rest := by
  rw [inputStrings, linesOf_of_fgets _ _ _ h, List.flatMap_cons, inputStrings]

/-- A turn ends the loop at the end of the input, or sends as much of a line as is taken. -/
theorem turn_cases (h : turn c result = some d) : c.status = .looping ∧
    (c.stdin = [] ∧ d.stream = c.stream ∧ d.status = .returned 0 ∨
      ∃ line sent, fgets sizeofBuf c.stdin = some (line, d.stdin) ∧ sent <+: str line ∧
        d.stream = c.stream ++ sent ∧
        (d.status = .looping ∧ sent = str line ∨ d.status = .returned (-1))) := by
  unfold turn at h
  split at h
  · cases h
  · rename_i hstatus
    refine ⟨hstatus, ?_⟩
    split at h
    · rename_i hend
      cases h
      exact .inl ⟨fgets_eq_none_iff.mp hend, rfl, rfl⟩
    · rename_i line stdin hline
      right
      split at h
      · cases h
        exact ⟨line, [], hline, List.nil_prefix, (List.append_nil _).symm, .inr rfl⟩
      · rename_i n
        dsimp only at h
        split at h
        · cases h
        · rename_i hn
          cases h
          have hstr : (store c.buf 0 (line ++ [0])).take (strlen (store c.buf 0 (line ++ [0]))) =
              str line := by rw [take_strlen, str_store_line]
          refine ⟨line, _, hline, ?_, rfl, ?_⟩
          · rw [← hstr]
            exact List.take_prefix_take_left (Nat.le_of_not_lt hn)
          · split
            · rename_i hall
              exact .inl ⟨rfl, by rw [hall, hstr]⟩
            · exact .inr rfl

theorem Sends.turn (h : Sends total c) (hturn : turn c result = some d) : Sends total d := by
  obtain ⟨hstatus, ⟨hend, hstream, hreturn⟩ | ⟨line, sent, hline, hsent, hstream, hnext⟩⟩ :=
    turn_cases hturn
  · have htotal : c.stream ++ inputStrings [] = total := hend ▸ h.looping hstatus
    rw [inputStrings, linesOf_nil, List.flatMap_nil, List.append_nil] at htotal
    exact ⟨hstream ▸ h.isPrefix, by simp [hreturn], fun _ => hstream.trans htotal⟩
  · have htotal := h.looping hstatus
    rw [inputStrings_of_fgets hline, ← List.append_assoc] at htotal
    have hinit : d.stream <+: total := by
      rw [hstream, ← htotal]
      exact ((List.prefix_append_right_inj _).mpr hsent).trans (List.prefix_append ..)
    rcases hnext with ⟨hlooping, rfl⟩ | hreturn
    · exact ⟨hinit, fun _ => hstream ▸ htotal, by simp [hlooping]⟩
    · exact ⟨hinit, by simp [hreturn], by simp [hreturn]⟩

theorem sends (h : exec turn results (start stdin buf) = some c) :
    Sends (inputStrings stdin) c := by
  refine exec_induction (Sends (inputStrings stdin)) (fun _ _ _ hs _ hturn => hs.turn hturn) ?_
    (Along.of_forall fun _ _ _ => trivial) h
  exact ⟨List.nil_prefix, fun _ => rfl, by simp [start]⟩

/-! ## From one standard stream to the other -/

/-- The client sends no NUL. -/
theorem zero_notMem_inputStrings (stdin : List Byte) : 0 ∉ inputStrings stdin := by
  rw [inputStrings, List.mem_flatMap]
  rintro ⟨line, -, hmem⟩
  exact notMem_str line hmem

/-- **The server prints what the client reads.** At any time, and however the stream is cut
into chunks that leave room for the terminator, the server has printed the start of the
client's input strings, with all writes to its array. When the client has returned 0 and
all it sent has arrived, the server has printed them all; that is the input itself exactly
where it holds no NUL. -/
theorem server_prints_input {chunks : List (List Byte)} (serverBuf : List Byte)
    (h : exec turn results (start stdin buf) = some c) (harrived : chunks.flatten <+: c.stream)
    (hchunks : ∀ chunk ∈ chunks, 1 ≤ chunk.length ∧ chunk.length < TcpServer.sizeofBuf) :
    let server := TcpServer.receive chunks (TcpServer.start serverBuf)
    server.stdout <+: inputStrings stdin ∧
      (∀ i ∈ server.written, i < TcpServer.sizeofBuf) ∧
      (c.status = .returned 0 → chunks.flatten = c.stream →
        server.stdout = inputStrings stdin ∧ (server.stdout = stdin ↔ 0 ∉ stdin)) := by
  intro server
  have hsends : Sends (inputStrings stdin) c := sends h
  have hinit : chunks.flatten <+: inputStrings stdin := harrived.trans hsends.isPrefix
  have hzero : 0 ∉ chunks.flatten :=
    fun hmem => zero_notMem_inputStrings stdin (hinit.subset hmem)
  have hne : ∀ chunk ∈ chunks, 1 ≤ chunk.length := fun chunk hmem => (hchunks chunk hmem).1
  have hstdout : server.stdout = chunks.flatten := by
    rw [TcpServer.stdout_receive hne hzero]
    rfl
  refine ⟨hstdout ▸ hinit, ?_, ?_⟩
  · refine (TcpServer.written_receive hne).mpr ⟨?_, fun chunk hmem => (hchunks chunk hmem).2⟩
    exact fun i hi => absurd hi List.not_mem_nil
  · intro hreturned hall
    have htotal : server.stdout = inputStrings stdin :=
      hstdout.trans (hall.trans (hsends.complete hreturned))
    exact ⟨htotal, htotal ▸ flatMap_str_linesOf_iff _ _ stdin⟩

/-- The line `hi`, sent whole and received in two chunks. -/
theorem server_prints_input_hi : ∃ c, exec turn [some 3, none] (start [104, 105, 10] []) = some c ∧
    (TcpServer.receive [[104], [105, 10]] (TcpServer.start [])).stdout = [104, 105, 10] := by
  have hrun : ∃ c ∈ exec turn [some 3, none] (start [104, 105, 10] []),
      c.status = .returned 0 ∧ c.stream = [104, 105, 10] := by decide
  obtain ⟨c, hc, hreturned, hstream⟩ := hrun
  have harrived : [[104], [105, 10]].flatten <+: c.stream := hstream ▸ List.prefix_refl _
  have hprinted := (server_prints_input [] hc harrived (by decide)).2.2 hreturned hstream.symm
  exact ⟨c, hc, hprinted.2.mpr (by decide)⟩

end
end Osh.TcpClient
