import GlobalAgenda.Base.Interleaving
import GlobalAgenda.Connection

namespace GlobalAgenda.EventLoop

open Connection Base Relation

/-- A `Server`: the accepts it has started and not yet completed, and the clients it has made, in
the order of their connections. -/
structure Server where
  accepts : Nat := 0
  clients : List Client := []
  deriving DecidableEq, Repr

namespace Server

def accept (s : Server) : Server := { s with accepts := s.accepts + 1 }

def start : Server := accept {}

/-- The handler of an accept that completes with a socket or with an error. -/
def complete (s : Server) (socket : Bool) : Server :=
  accept { s with
    accepts := s.accepts - 1
    clients := if socket then s.clients ++ [.start] else s.clients }

end Server

def Idle (c : Client) : Prop := c.handler = .idle

theorem start_idle : Idle .start := rfl

/-- The steps of a server that receives from its `i`-th client the chunks `chunks i`. The handlers
of the server and of all clients run on one thread. -/
inductive Step (chunks : Nat → Nat → List UInt8) : Server → Server → Prop
  | completed {s : Server} (socket : Bool) (hidle : ∀ c ∈ s.clients, Idle c)
      (haccept : 0 < s.accepts) : Step chunks s (s.complete socket)
  | client {s : Server} {i : Nat} {c d : Client} (hi : s.clients[i]? = some c)
      (hothers : ∀ (j : Nat) (e : Client), j ≠ i → s.clients[j]? = some e → Idle e)
      (hstep : Connection.Step (chunks i) c d) : Step chunks s { s with clients := s.clients.set i d }

def Run (chunks : Nat → Nat → List UInt8) : Server → Server → Prop := ReflTransGen (Step chunks)

def Reachable (chunks : Nat → Nat → List UInt8) (s : Server) : Prop := Run chunks .start s

variable {chunks : Nat → Nat → List UInt8}

abbrev Together (chunks : Nat → Nat → List UInt8) : List Client → List Client → Prop :=
  Interleaving.Reaches Client.start Idle (fun i => Connection.Step (chunks i))

theorem Run.together {s t : Server} (h : Run chunks s t) : Together chunks s.clients t.clients := by
  induction h with
  | refl => exact .refl
  | tail _ hstep ih =>
    cases hstep with
    | completed socket hidle _ =>
      cases socket with
      | false => exact ih
      | true => exact ReflTransGen.tail ih (.added hidle)
    | client hi hothers hstep => exact ReflTransGen.tail ih (.moved hi hothers hstep)

theorem Run.accepts {s t : Server} (h : Run chunks s t) (hs : s.accepts = 1) : t.accepts = 1 := by
  induction h with
  | refl => exact hs
  | tail _ hstep ih =>
    cases hstep with
    | completed socket _ _ =>
      simp only [Server.complete, Server.accept]
      omega
    | client _ _ _ => exact ih

theorem Reachable.client {s : Server} (h : Reachable chunks s) {i : Nat} {c : Client}
    (hi : s.clients[i]? = some c) : Connection.Reachable (chunks i) c :=
  (Run.together h).component hi

theorem Reachable.exclusive {s : Server} (h : Reachable chunks s) {i j : Nat} {c d : Client}
    (hi : s.clients[i]? = some c) (hc : ¬ Idle c) (hj : s.clients[j]? = some d) (hd : ¬ Idle d) :
    i = j :=
  Interleaving.Reaches.exclusive start_idle (Run.together h) hi hc hj hd

/-- The client that has sent a byte only gets more empty frames, and the others stay as they are. -/
theorem captured {s t : Server} {i : Nat} {c : Client} (hs : Reachable chunks s)
    (hi : s.clients[i]? = some c) (hreceived : 0 < c.received) (hbyte : chunks i 0 ≠ [])
    (ht : Run chunks s t) : ∃ n, t.clients = s.clients.set i
      { c with writes := c.writes ++ List.replicate n [0, 0] } := by
  obtain ⟨hloop, hbuffer⟩ := (hs.client hi).phase.busy hbyte hreceived
  rw [← hbuffer] at hbyte
  let T : Client → Prop := fun d => ∃ n, d = { c with writes := c.writes ++ List.replicate n [0, 0] }
  have hT : ∀ d e, T d → Connection.Step (chunks i) d e → T e := by
    rintro d e ⟨n, rfl⟩ hstep
    rw [step_answering (by exact hloop) (by exact hbyte) hstep]
    exact ⟨n + 1, by rw [List.replicate_succ', ← List.append_assoc]⟩
  have hbusy : ∀ d, T d → ¬ Idle d := by
    rintro d ⟨n, rfl⟩ hidle
    rw [show c.handler = .idle from hidle] at hloop
    cases hloop
  obtain ⟨d, hclients, _, n, rfl⟩ := ht.together.captured hT hbusy hi ⟨0, by simp⟩
  exact ⟨n, hclients⟩

theorem reachable_waiting (chunks : Nat → Nat → List UInt8) (n : Nat) :
    Reachable chunks ⟨1, List.replicate n .start⟩ := by
  induction n with
  | zero => exact .refl
  | succ n ih =>
    have hidle : ∀ c ∈ List.replicate n Client.start, Idle c := by
      intro c hc
      rw [List.eq_of_mem_replicate hc]
      exact start_idle
    rw [List.replicate_succ']
    exact ReflTransGen.tail ih (.completed true hidle Nat.one_pos)

theorem reachable_heard (chunks : Nat → Nat → List UInt8) (i : Nat) :
    Reachable chunks ⟨1, List.replicate i .start ++ [Client.start.complete (chunks i 0)]⟩ := by
  have hwaiting := reachable_waiting chunks (i + 1)
  rw [List.replicate_succ'] at hwaiting
  have hlast : (List.replicate i Client.start ++ [Client.start])[i]? = some Client.start := by
    rw [List.getElem?_append_right (by simp), List.length_replicate, Nat.sub_self]
    rfl
  have hothers : ∀ (j : Nat) (e : Client), j ≠ i →
      (List.replicate i Client.start ++ [Client.start])[j]? = some e → Idle e := by
    intro j e _ he
    rw [← List.replicate_succ'] at he
    rw [List.eq_of_mem_replicate (List.mem_of_getElem? he)]
    exact start_idle
  have hreceived : Connection.Step (chunks i) .start (Client.start.complete (chunks i 0)) :=
    .received start_idle Nat.one_pos
  have hstep := Step.client (s := ⟨1, List.replicate i .start ++ [.start]⟩) hlast hothers hreceived
  rw [List.set_append_right _ _ (by simp), List.length_replicate, Nat.sub_self] at hstep
  exact ReflTransGen.tail hwaiting hstep

def keepAlive : List UInt8 := [4, 0, 0x8E, 0, 0, 0]

def heardSecond : Server := ⟨1, [.start, Client.start.complete keepAlive]⟩

/-- Once a client has sent a byte the thread only writes empty frames to it: nothing is accepted
any more, and no other client gets a step. -/
theorem first_byte_captures {s t : Server} {i : Nat} {c : Client} (hs : Reachable chunks s)
    (hi : s.clients[i]? = some c) (hreceived : 0 < c.received) (hbyte : chunks i 0 ≠ [])
    (ht : Run chunks s t) : ∃ n, t = { s with
      clients := s.clients.set i { c with writes := c.writes ++ List.replicate n [0, 0] } } := by
  obtain ⟨n, hclients⟩ := captured hs hi hreceived hbyte ht
  have haccepts : t.accepts = s.accepts := by
    rw [Run.accepts ht (Run.accepts hs rfl), Run.accepts hs rfl]
  exact ⟨n, by rw [← haccepts, ← hclients]⟩

theorem heardSecond_captured : ∃ n,
    ({ heardSecond with
      clients := heardSecond.clients.set 1 ((Client.start.complete keepAlive).respond 0 {}) } : Server) =
    { heardSecond with
      clients := heardSecond.clients.set 1 { Client.start.complete keepAlive with
        writes := (Client.start.complete keepAlive).writes ++ List.replicate n [0, 0] } } := by
  have hothers : ∀ (j : Nat) (e : Client), j ≠ 1 → heardSecond.clients[j]? = some e → Idle e := by
    intro j e hj he
    match j with
    | 0 => cases he; exact start_idle
    | 1 => exact absurd rfl hj
    | _ + 2 => cases he
  have hne : 0 ≠ (Client.start.complete keepAlive).recvBuffer.length := by
    rw [complete_recvBuffer]
    decide
  exact first_byte_captures (reachable_heard (fun _ _ => keepAlive) 1) rfl Nat.one_pos (by decide)
    (.single (.client rfl hothers (.respond rfl hne)))

/-- The server has received a byte from its `i`-th client. -/
def Heard (chunks : Nat → Nat → List UInt8) (s : Server) (i : Nat) : Prop :=
  ∃ c, s.clients[i]? = some c ∧ 0 < c.received ∧ chunks i 0 ≠ []

/-- Nothing but empty frames is written, one chunk is read of a client at most, and one client is
heard at most. -/
structure Mute (chunks : Nat → Nat → List UInt8) (s : Server) : Prop where
  writes : ∀ c ∈ s.clients, ∀ w ∈ c.writes, w = [0, 0]
  received : ∀ c ∈ s.clients, c.received ≤ 1
  heard : ∀ i j, Heard chunks s i → Heard chunks s j → i = j

theorem reachable_mute (chunks : Nat → Nat → List UInt8) (s : Server) (h : Reachable chunks s) :
    Mute chunks s := by
  have hphase : ∀ c ∈ s.clients, ∃ first, Phase first c := by
    intro c hc
    obtain ⟨i, hi⟩ := List.getElem?_of_mem hc
    exact ⟨_, (h.client hi).phase⟩
  have hbusy : ∀ i, Heard chunks s i → ∃ c, s.clients[i]? = some c ∧ ¬ Idle c := by
    rintro i ⟨c, hi, hreceived, hbyte⟩
    refine ⟨c, hi, fun hidle => ?_⟩
    have hloop := ((h.client hi).phase.busy hbyte hreceived).1
    rw [show c.handler = .idle from hidle] at hloop
    cases hloop
  constructor
  · intro c hc
    obtain ⟨first, hfirst⟩ := hphase c hc
    exact hfirst.writes
  · intro c hc
    obtain ⟨first, hfirst⟩ := hphase c hc
    exact hfirst.received_le
  · intro i j hi hj
    obtain ⟨c, hci, hc⟩ := hbusy i hi
    obtain ⟨d, hdj, hd⟩ := hbusy j hj
    exact h.exclusive hci hc hdj hd

theorem heardSecond_mute : Mute (fun _ _ => keepAlive) heardSecond :=
  reachable_mute _ _ (reachable_heard (fun _ _ => keepAlive) 1)

theorem accepts_again (hchunks : ∀ i, chunks i 0 = []) {s : Server} (h : Reachable chunks s) :
    ∃ t, Run chunks s t ∧ s.clients.length < t.clients.length := by
  have haccepts : s.accepts = 1 := h.accepts rfl
  by_cases hidle : ∀ c ∈ s.clients, Idle c
  · refine ⟨s.complete true, .single (.completed true hidle (by rw [haccepts]; decide)), ?_⟩
    simp [Server.complete, Server.accept]
  · obtain ⟨c, hc, hbusy⟩ : ∃ c ∈ s.clients, ¬ Idle c := by simpa using hidle
    obtain ⟨i, hi⟩ := List.getElem?_of_mem hc
    have hphase := (h.client hi).phase
    rw [hchunks i] at hphase
    obtain ⟨d, hstep, hd⟩ := hphase.returns.resolve_left hbusy
    have hothers : ∀ (j : Nat) (e : Client), j ≠ i → s.clients[j]? = some e → Idle e := by
      intro j e hj he
      by_contra hne
      exact hj (h.exclusive he hne hi hbusy)
    have hall : ∀ e ∈ s.clients.set i d, Idle e := by
      intro e he
      obtain ⟨j, hj⟩ := List.getElem?_of_mem he
      by_cases hij : i = j
      · subst hij
        rw [List.getElem?_set_self (List.getElem?_eq_some_iff.mp hi).1] at hj
        cases hj
        exact hd
      · rw [List.getElem?_set_ne hij] at hj
        exact hothers j e (Ne.symm hij) hj
    refine ⟨Server.complete { s with clients := s.clients.set i d } true,
      ReflTransGen.tail (.single (.client hi hothers hstep))
        (.completed true hall (by rw [haccepts]; decide)), ?_⟩
    simp [Server.complete, Server.accept]

/-- A server can always accept another client exactly when the first chunk of every client is
empty. -/
theorem accepting_iff (chunks : Nat → Nat → List UInt8) :
    (∀ s, Reachable chunks s → ∃ t, Run chunks s t ∧ s.clients.length < t.clients.length) ↔
      ∀ i, chunks i 0 = [] := by
  constructor
  · intro h i
    by_contra hbyte
    have hheard := reachable_heard chunks i
    obtain ⟨t, ht, hlt⟩ := h _ hheard
    have hlast : (List.replicate i Client.start ++ [Client.start.complete (chunks i 0)])[i]? =
        some (Client.start.complete (chunks i 0)) := by
      rw [List.getElem?_append_right (by simp), List.length_replicate, Nat.sub_self]
      rfl
    obtain ⟨n, hclients⟩ := captured hheard hlast Nat.one_pos hbyte ht
    rw [hclients, List.length_set] at hlt
    exact Nat.lt_irrefl _ hlt
  · intro hchunks s hs
    exact accepts_again hchunks hs

end GlobalAgenda.EventLoop
