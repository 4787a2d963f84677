import Mathlib.Data.List.Basic
import Osh.Lib.CString

/-!
# The copying server

`TCPserver.c` copies what it receives to its standard output. Each `recv` may fill the whole
array, and the terminator goes behind what was received: for a full array, behind the array.

## Main definitions

* `copyChunk`, `receive`: the body of the receive loop, and the loop.
* `Copies`: the writes are to the array, and the output is what was received.

## Main results

* `stdout_receive`: the output.
* `copies_iff`: when the loop does what it should.
-/
namespace Osh.TcpServer
open CString

/-- `sizeof(buf)` -/
def sizeofBuf : ℕ := 1024

structure State where
  /-- The memory from the start of the array on. -/
  buf : List Byte
  /-- What `fputs` has written. -/
  stdout : List Byte
  /-- The indices of `buf` that have been written. -/
  written : List ℕ

/-- The loop body for a chunk that `recv` has put into `buf`. -/
def copyChunk (chunk : List Byte) (s : State) : State :=
  let n := chunk.length
  let buf := store (store s.buf 0 chunk) n [0]
  { buf
    stdout := s.stdout ++ str buf
    written := s.written ++ List.range n ++ [n] }

/-- The receive loop, for the results of `recv` up to the end of the stream. It ends where
nothing is received. -/
def receive : List (List Byte) → State → State
  | [], s => s
  | chunk :: chunks, s => if 0 < chunk.length then receive chunks (copyChunk chunk s) else s

/-- The variables before the loop; `buf` is not initialised. -/
def start (buf : List Byte) : State := ⟨buf, [], []⟩

/-- A way to receive a stream: `recv` returns some of it, and at most a full array. -/
structure Splits (stream : List Byte) (chunks : List (List Byte)) : Prop where
  flatten : chunks.flatten = stream
  nonempty : ∀ chunk ∈ chunks, 1 ≤ chunk.length
  fits : ∀ chunk ∈ chunks, chunk.length ≤ sizeofBuf

/-- Every write is to the array, and the output is the stream. -/
def Copies (stream : List Byte) (chunks : List (List Byte)) (buf : List Byte) : Prop :=
  (∀ i ∈ (receive chunks (start buf)).written, i < sizeofBuf) ∧
    (receive chunks (start buf)).stdout = stream

section
variable {stream chunk buf : List Byte} {chunks : List (List Byte)} {s : State}

/-! ## One chunk -/

theorem holds_copyChunk (h : 0 ∉ chunk) : Holds (copyChunk chunk s).buf chunk := by
  refine ⟨h, (s.buf.drop chunk.length).drop 1, ?_⟩
  have hrecv : store s.buf 0 chunk = chunk ++ s.buf.drop chunk.length := by
    simp [store]
  simp [copyChunk, hrecv, store_append]

theorem stdout_copyChunk (h : 0 ∉ chunk) : (copyChunk chunk s).stdout = s.stdout ++ chunk :=
  congrArg (s.stdout ++ ·) (holds_copyChunk h).str_eq

/-- A chunk is in the array with its terminator if it does not fill it. -/
theorem written_copyChunk : (∀ i ∈ (copyChunk chunk s).written, i < sizeofBuf) ↔
    (∀ i ∈ s.written, i < sizeofBuf) ∧ chunk.length < sizeofBuf := by
  simp only [copyChunk, List.mem_append, List.mem_range, List.mem_singleton]
  constructor
  · intro h
    exact ⟨fun i hi => h i (.inl (.inl hi)), h _ (.inr rfl)⟩
  · rintro ⟨hs, hchunk⟩ i ((hi | hi) | rfl)
    · exact hs i hi
    · exact hi.trans hchunk
    · exact hchunk

/-! ## The loop -/

theorem receive_cons (h : 1 ≤ chunk.length) :
    receive (chunk :: chunks) s = receive chunks (copyChunk chunk s) :=
  if_pos h

/-- The output is what was received, however it was split. -/
theorem stdout_receive (hne : ∀ chunk ∈ chunks, 1 ≤ chunk.length) (hzero : 0 ∉ chunks.flatten) :
    (receive chunks s).stdout = s.stdout ++ chunks.flatten := by
  induction chunks generalizing s with
  | nil => simp [receive]
  | cons chunk chunks ih =>
      rw [List.flatten_cons, List.mem_append, not_or] at hzero
      rw [receive_cons (hne chunk (List.mem_cons_self ..)),
        ih (fun c hc => hne c (List.mem_cons_of_mem chunk hc)) hzero.2,
        stdout_copyChunk hzero.1, List.flatten_cons, List.append_assoc]

theorem written_receive (hne : ∀ chunk ∈ chunks, 1 ≤ chunk.length) :
    (∀ i ∈ (receive chunks s).written, i < sizeofBuf) ↔
      (∀ i ∈ s.written, i < sizeofBuf) ∧ ∀ chunk ∈ chunks, chunk.length < sizeofBuf := by
  induction chunks generalizing s with
  | nil => simp [receive]
  | cons chunk chunks ih =>
      rw [receive_cons (hne chunk (List.mem_cons_self ..)),
        ih fun c hc => hne c (List.mem_cons_of_mem chunk hc), written_copyChunk, and_assoc,
        List.forall_mem_cons]

/-- **When the server copies the stream.** A stream without NUL is copied with all writes to
the array if and only if no chunk fills the array. -/
theorem copies_iff (hzero : 0 ∉ stream) (hsplits : Splits stream chunks) (buf : List Byte) :
    Copies stream chunks buf ↔ ∀ chunk ∈ chunks, chunk.length < sizeofBuf := by
  have hout : (receive chunks (start buf)).stdout = stream := by
    rw [stdout_receive hsplits.nonempty (hsplits.flatten ▸ hzero), hsplits.flatten]
    rfl
  rw [Copies, written_receive hsplits.nonempty]
  constructor
  · rintro ⟨⟨-, hchunks⟩, -⟩
    exact hchunks
  · intro hchunks
    exact ⟨⟨fun i hi => absurd hi List.not_mem_nil, hchunks⟩, hout⟩

/-- The bytes `hello` in two chunks. -/
theorem copies_iff_hello : Copies [104, 101, 108, 108, 111] [[104, 101], [108, 108, 111]] [] ↔
    ∀ chunk ∈ ([[104, 101], [108, 108, 111]] : List (List Byte)), chunk.length < sizeofBuf :=
  copies_iff (by decide) ⟨by decide, by decide, by decide⟩ []

/-- One chunk that fills the array. -/
theorem fullChunk_overruns :
    ¬ ∀ (stream : List Byte) (chunks : List (List Byte)) (buf : List Byte),
      0 ∉ stream → Splits stream chunks → Copies stream chunks buf := by
  intro hclaim
  have hzero : (0 : Byte) ∉ List.replicate sizeofBuf 97 :=
    fun h => absurd (List.eq_of_mem_replicate h) (by decide)
  have hlength : ∀ chunk ∈ [List.replicate sizeofBuf (97 : Byte)], chunk.length = sizeofBuf := by
    intro chunk hchunk
    rw [List.mem_singleton.mp hchunk, List.length_replicate]
  have hne : ∀ chunk ∈ [List.replicate sizeofBuf (97 : Byte)], 1 ≤ chunk.length := by
    intro chunk hchunk
    rw [hlength chunk hchunk, sizeofBuf]
    omega
  have hsplits : Splits (List.replicate sizeofBuf 97) [List.replicate sizeofBuf 97] :=
    ⟨List.append_nil _, hne, fun chunk hchunk => (hlength chunk hchunk).le⟩
  obtain ⟨hwritten, -⟩ := hclaim _ _ [] hzero hsplits
  have hlt := ((written_receive hne).mp hwritten).2 _ (List.mem_singleton_self _)
  rw [List.length_replicate] at hlt
  exact Nat.lt_irrefl _ hlt

end
end Osh.TcpServer
