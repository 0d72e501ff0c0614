import GlobalAgenda.TcpPacket
import Mathlib.Logic.Relation

namespace GlobalAgenda.Connection

/-- Where the single thread is: in the event loop, or in the loop of the read handler. -/
inductive Handler
  | idle
  | loop (start : Nat) (responsePacket : TcpPacket)
  deriving DecidableEq, Repr

def clientMaxBuffer : Nat := 0x2000

/-- A `Client` with the operations it has started and not yet completed: reads into the buffer and
writes of the given bytes. `clash` records that the buffer was resized under a read. -/
structure Client where
  recvBuffer : List UInt8 := []
  reads : Nat := 0
  writes : List (List UInt8) := []
  handler : Handler := .idle
  received : Nat := 0
  clash : Bool := false
  deriving DecidableEq, Repr

namespace Client

def resize (c : Client) (size : Nat) : Client :=
  { c with recvBuffer := c.recvBuffer.takeD size 0, clash := c.clash || decide (0 < c.reads) }

def read (c : Client) : Client :=
  { c.resize clientMaxBuffer with reads := c.reads + 1 }

def write (c : Client) (data : List UInt8) : Client := { c with writes := c.writes ++ [data] }

def start : Client := read {}

/-- A read completes: its bytes are in the buffer, which the handler resizes to them. -/
def complete (c : Client) (chunk : List UInt8) : Client :=
  { ({ c with
        recvBuffer := chunk ++ c.recvBuffer.drop chunk.length
        reads := c.reads - 1 } : Client).resize chunk.length with
    handler := .loop 0 {}
    received := c.received + 1 }

/-- A round of `while(start != end)`, which leaves `start` where it is. -/
def respond (c : Client) (start : Nat) (responsePacket : TcpPacket) : Client :=
  { c.write responsePacket.build.1 with handler := .loop start responsePacket.build.2 }

end Client

/-- The steps of a client that receives the given chunks one after the other. Operations complete
in any order, and a handler runs to its end before the next begins. -/
inductive Step (chunks : Nat → List UInt8) : Client → Client → Prop
  | received {c : Client} (hidle : c.handler = .idle) (hread : 0 < c.reads) :
      Step chunks c (c.complete (chunks c.received))
  | respond {c : Client} {start : Nat} {responsePacket : TcpPacket}
      (hloop : c.handler = .loop start responsePacket) (hne : start ≠ c.recvBuffer.length) :
      Step chunks c (c.respond start responsePacket)
  | returns {c : Client} {start : Nat} {responsePacket : TcpPacket}
      (hloop : c.handler = .loop start responsePacket) (hend : start = c.recvBuffer.length) :
      Step chunks c { c with handler := .idle }
  | sent {c : Client} {before after : List (List UInt8)} {data : List UInt8}
      (hidle : c.handler = .idle) (hwrites : c.writes = before ++ data :: after) :
      Step chunks c ({ c with writes := before ++ after } : Client).read

def Reachable (chunks : Nat → List UInt8) (c : Client) : Prop :=
  Relation.ReflTransGen (Step chunks) .start c

/-- At most one read and one write are under way, and the buffer was never resized under a read. -/
structure OneAtATime (c : Client) : Prop where
  reads : c.reads ≤ 1
  writes : c.writes.length ≤ 1
  clash : c.clash = false

/-- Waiting for the first chunk, or done with an empty one. -/
inductive Quiet : Client → Prop
  | waiting {c : Client} (hidle : c.handler = .idle) (hreads : c.reads = 1) (hwrites : c.writes = [])
      (hreceived : c.received = 0) (hclash : c.clash = false) : Quiet c
  | empty {c : Client} {responsePacket : TcpPacket} (hloop : c.handler = .loop 0 responsePacket)
      (hreads : c.reads = 0) (hwrites : c.writes = []) (hbuffer : c.recvBuffer = [])
      (hclash : c.clash = false) : Quiet c
  | done {c : Client} (hidle : c.handler = .idle) (hreads : c.reads = 0) (hwrites : c.writes = [])
      (hclash : c.clash = false) : Quiet c

theorem Quiet.oneAtATime {c : Client} (h : Quiet c) : OneAtATime c := by
  cases h with
  | waiting _ hreads hwrites _ hclash | empty _ hreads hwrites _ hclash
  | done _ hreads hwrites hclash =>
    exact ⟨by omega, by simp [hwrites], hclash⟩

theorem start_quiet : Quiet .start := .waiting rfl rfl rfl rfl rfl

variable {chunks : Nat → List UInt8}

theorem Quiet.step (hfirst : chunks 0 = []) {c d : Client} (hc : Quiet c) (h : Step chunks c d) :
    Quiet d := by
  cases h with
  | received hidle hread =>
    cases hc with
    | waiting _ hreads hwrites hreceived hclash =>
      rw [hreceived, hfirst]
      exact .empty rfl (by simp [Client.complete, Client.resize, hreads]) hwrites rfl
        (by simp [Client.complete, Client.resize, hreads, hclash])
    | empty hloop => rw [hidle] at hloop; cases hloop
    | done _ hreads => omega
  | respond hloop hne =>
    cases hc with
    | waiting hidle | done hidle => rw [hidle] at hloop; cases hloop
    | empty hloop' _ _ hbuffer =>
      rw [hloop] at hloop'
      cases hloop'
      exact absurd (by rw [hbuffer]; rfl) hne
  | returns hloop _ =>
    cases hc with
    | waiting hidle | done hidle => rw [hidle] at hloop; cases hloop
    | empty _ hreads hwrites _ hclash => exact .done rfl hreads hwrites hclash
  | sent hidle hwrites =>
    cases hc with
    | waiting _ _ hnone | done _ _ hnone | empty _ _ hnone =>
      rw [hnone] at hwrites
      simp at hwrites

theorem Reachable.quiet (hfirst : chunks 0 = []) {c : Client} (h : Reachable chunks c) : Quiet c := by
  induction h with
  | refl => exact start_quiet
  | tail _ hstep ih => exact ih.step hfirst hstep

/-- Once a byte was received the read handler stays in its loop and starts one write after the
other. -/
theorem writes_pile_up (hfirst : chunks 0 ≠ []) (n : Nat) :
    ∃ c responsePacket, Reachable chunks c ∧ c.handler = .loop 0 responsePacket ∧
      c.recvBuffer.length ≠ 0 ∧ c.writes.length = n := by
  induction n with
  | zero =>
    refine ⟨Client.start.complete (chunks 0), {}, .single (.received rfl Nat.one_pos), rfl, ?_, rfl⟩
    change ((chunks 0 ++ _).takeD (chunks 0).length 0).length ≠ 0
    rw [List.takeD_length]
    exact (List.length_pos_iff.mpr hfirst).ne'
  | succ n ih =>
    obtain ⟨c, responsePacket, hreach, hloop, hbuffer, hwrites⟩ := ih
    refine ⟨c.respond 0 responsePacket, responsePacket.build.2,
      hreach.tail (.respond hloop hbuffer.symm), rfl, hbuffer, ?_⟩
    change (c.writes ++ [_]).length = n + 1
    rw [List.length_append, hwrites, List.length_singleton]

/-- A client never has two operations of a kind under way exactly when the first chunk that it
receives is empty. -/
theorem one_at_a_time_iff (chunks : Nat → List UInt8) :
    (∀ c, Reachable chunks c → OneAtATime c) ↔ chunks 0 = [] := by
  constructor
  · intro h
    by_contra hfirst
    obtain ⟨c, _, hreach, _, _, hwrites⟩ := writes_pile_up hfirst 2
    have hone := (h c hreach).writes
    omega
  · intro hfirst c hreach
    exact (hreach.quiet hfirst).oneAtATime

theorem some_writes_overlap : ¬ ∀ (chunks : Nat → List UInt8) (c : Client),
    (∀ k, (chunks k).length ≤ clientMaxBuffer) → Reachable chunks c → OneAtATime c := by
  intro h
  obtain ⟨c, _, hreach, _, _, hwrites⟩ :=
    @writes_pile_up (fun _ => [4, 0, 0x8E, 0, 0, 0]) (by decide) 2
  have hone := (h _ c (fun _ => by decide) hreach).writes
  omega

variable {first : List UInt8}

/-- Where a client is that gets `first` as its first chunk: it waits for it, answers it, or has
found it empty. -/
inductive Phase (first : List UInt8) : Client → Prop
  | waiting {c : Client} (hidle : c.handler = .idle) (hreads : c.reads = 1) (hwrites : c.writes = [])
      (hreceived : c.received = 0) : Phase first c
  | answering {c : Client} (n : Nat) (hloop : c.handler = .loop 0 {}) (hreads : c.reads = 0)
      (hwrites : c.writes = List.replicate n [0, 0]) (hbuffer : c.recvBuffer = first)
      (hreceived : c.received = 1) (hempty : first = [] → n = 0) : Phase first c
  | done {c : Client} (hidle : c.handler = .idle) (hreads : c.reads = 0) (hwrites : c.writes = [])
      (hreceived : c.received = 1) (hempty : first = []) : Phase first c

theorem build_default : ({} : TcpPacket).build = ([0, 0], {}) := by decide

theorem complete_recvBuffer (c : Client) (chunk : List UInt8) :
    (c.complete chunk).recvBuffer = chunk := by
  change (chunk ++ c.recvBuffer.drop chunk.length).takeD chunk.length 0 = chunk
  rw [List.takeD_eq_take _ (by simp), List.take_left]

theorem Phase.step {c d : Client} (hc : Phase (chunks 0) c) (h : Step chunks c d) :
    Phase (chunks 0) d := by
  cases h with
  | received hidle hread =>
    cases hc with
    | waiting _ hreads hwrites hreceived =>
      rw [hreceived]
      refine .answering 0 rfl ?_ hwrites (complete_recvBuffer c _) ?_ (fun _ => rfl)
      · simp [Client.complete, Client.resize, hreads]
      · simp [Client.complete, Client.resize, hreceived]
    | answering _ hloop => rw [hidle] at hloop; cases hloop
    | done _ hreads => omega
  | respond hloop hne =>
    cases hc with
    | waiting hidle | done hidle => rw [hidle] at hloop; cases hloop
    | answering n hloop' hreads hwrites hbuffer hreceived =>
      rw [hloop] at hloop'
      cases hloop'
      refine .answering (n + 1) ?_ hreads ?_ hbuffer hreceived ?_
      · rw [Client.respond, build_default]
      · change c.writes ++ [({} : TcpPacket).build.1] = _
        rw [hwrites, build_default, List.replicate_succ']
      · intro hempty
        rw [hbuffer, hempty] at hne
        exact absurd rfl hne
  | returns hloop hend =>
    cases hc with
    | waiting hidle | done hidle => rw [hidle] at hloop; cases hloop
    | answering n hloop' hreads hwrites hbuffer hreceived hempty =>
      rw [hloop] at hloop'
      cases hloop'
      rw [hbuffer] at hend
      have hnil := List.length_eq_zero_iff.mp hend.symm
      rw [hempty hnil] at hwrites
      exact .done rfl hreads hwrites hreceived hnil
  | sent hidle hwrites =>
    cases hc with
    | waiting _ _ hnone | done _ _ hnone =>
      rw [hnone] at hwrites
      simp at hwrites
    | answering _ hloop => rw [hidle] at hloop; cases hloop

theorem Reachable.phase {c : Client} (h : Reachable chunks c) : Phase (chunks 0) c := by
  induction h with
  | refl => exact .waiting rfl rfl rfl rfl
  | tail _ hstep ih => exact ih.step hstep

theorem Phase.writes {c : Client} (h : Phase first c) : ∀ w ∈ c.writes, w = [0, 0] := by
  cases h with
  | waiting _ _ hwrites | done _ _ hwrites => simp [hwrites]
  | answering n _ _ hwrites => simp [hwrites]

theorem Phase.received_le {c : Client} (h : Phase first c) : c.received ≤ 1 := by
  cases h with
  | waiting _ _ _ hreceived => omega
  | answering _ _ _ _ _ hreceived | done _ _ _ hreceived => omega

theorem Phase.busy {c : Client} (h : Phase first c) (hbyte : first ≠ []) (hreceived : 0 < c.received) :
    c.handler = .loop 0 {} ∧ c.recvBuffer = first := by
  cases h with
  | waiting _ _ _ hnone => omega
  | answering _ hloop _ _ hbuffer => exact ⟨hloop, hbuffer⟩
  | done _ _ _ _ hempty => exact absurd hempty hbyte

theorem step_answering {c d : Client} (hloop : c.handler = .loop 0 {}) (hbuffer : c.recvBuffer ≠ [])
    (h : Step chunks c d) : d = { c with writes := c.writes ++ [[0, 0]] } := by
  cases h with
  | received hidle | sent hidle => rw [hidle] at hloop; cases hloop
  | respond hloop' hne =>
    rw [hloop] at hloop'
    cases hloop'
    rw [Client.respond, build_default, ← hloop]
    rfl
  | returns hloop' hend =>
    rw [hloop] at hloop'
    cases hloop'
    exact absurd (List.length_eq_zero_iff.mp hend.symm) hbuffer

theorem Phase.returns {c : Client} (h : Phase [] c) :
    c.handler = .idle ∨ ∃ d, Step chunks c d ∧ d.handler = .idle := by
  cases h with
  | waiting hidle | done hidle => exact .inl hidle
  | answering _ hloop _ _ hbuffer =>
    exact .inr ⟨_, .returns hloop (by rw [hbuffer]; rfl), rfl⟩

end GlobalAgenda.Connection
