import GlobalAgenda.TcpPacket
import Mathlib.Data.List.Forall2
import Mathlib.Logic.Function.Basic

namespace GlobalAgenda.Rebuilding

open ValueConverter

section Parts

variable {O : Type} {build : O → List UInt8 × O}

theorem flatMap_build (hre : ∀ o, build (build o).2 = build o) {os os' : List O}
    (h : os.map (fun o => (build o).2) = os'.map (fun o => (build o).2)) :
    os.flatMap (fun o => (build o).1) = os'.flatMap (fun o => (build o).1) := by
  have hbuilt : ∀ os : List O, os.flatMap (fun o => (build o).1) =
      (os.map (fun o => (build o).2)).flatMap (fun o => (build o).1) := by
    intro os
    simp only [List.flatMap_map, hre]
  rw [hbuilt os, hbuilt os', h]

theorem map_build (hre : ∀ o, build (build o).2 = build o) (os : List O) :
    (os.map (fun o => (build o).2)).map (fun o => (build o).2) = os.map (fun o => (build o).2) := by
  simp only [List.map_map, Function.comp_def, hre]

end Parts

theorem sanitize_again {α : Type} (h : EntryHeader) (payload : List α) (pad : α) {payload' : List α}
    (hlen : payload'.length = (h.sanitizePayloadSizeByType payload pad).2.length) :
    (h.sanitizePayloadSizeByType payload pad).1.sanitizePayloadSizeByType payload' pad =
      ((h.sanitizePayloadSizeByType payload pad).1, payload') := by
  by_cases hwidth : h.sizeWidth = 0
  · simp only [EntryHeader.sanitizePayloadSizeByType, hwidth, ne_eq, not_true_eq_false,
      ↓reduceIte, List.takeD_length] at hlen ⊢
    rw [← hlen, List.takeD_eq_take _ le_rfl, List.take_length]
  · simp only [EntryHeader.sanitizePayloadSizeByType, hwidth, ne_eq, not_false_eq_true,
      ↓reduceIte] at hlen ⊢
    rw [hlen]

theorem entry_sanitized (e : DataEntry) : e.sanitized.sanitized = e.sanitized := by
  have hagain := sanitize_again e.entryHeader e.data 0 rfl
  rw [DataEntry.sanitized, DataEntry.sanitized, hagain]

theorem entry_rebuild (e : DataEntry) : e.build.2.build = e.build := by
  rw [DataEntry.build, DataEntry.build, entry_sanitized]

theorem array_rebuild (a : AnonymousArray) : a.build.2.build = a.build := by
  have hmap := map_build entry_rebuild a.entries
  have hbytes := flatMap_build entry_rebuild hmap
  rw [AnonymousArray.build, AnonymousArray.build, hbytes, hmap, List.length_map]

theorem dataSet_rebuild (d : DataSet) : d.build.2.build = d.build := by
  have hmap := map_build array_rebuild d.sanitized.anonArrays
  have hbytes := flatMap_build array_rebuild hmap
  have hsan : d.build.2.sanitized = d.build.2 := by
    have hlen : (d.sanitized.anonArrays.map (fun a => a.build.2)).length =
        d.sanitized.anonArrays.length := List.length_map _
    have hagain := sanitize_again d.entryHeader d.anonArrays {} hlen
    rw [DataSet.sanitized]
    exact congrArg (fun s => DataSet.mk s.1 s.2) hagain
  rw [DataSet.build, hsan, DataSet.build, hbytes, hmap]

/-- Packets that `build` cannot tell apart, now or after the same appends. -/
structure Same (p q : Packet) : Prop where
  cmd : p.packetHeader.cmd = q.packetHeader.cmd
  sizeWidth : p.packetHeader.sizeWidth = q.packetHeader.sizeWidth
  entries : p.entries.map (fun e => e.build.2) = q.entries.map (fun e => e.build.2)
  dataSets : p.dataSets.map (fun d => d.build.2) = q.dataSets.map (fun d => d.build.2)

variable {p q : Packet}

theorem Same.refl (p : Packet) : Same p p := ⟨rfl, rfl, rfl, rfl⟩

theorem Same.bytes (h : Same p q) : p.build.1 = q.build.1 := by
  have hentries := congrArg List.length h.entries
  have hsets := congrArg List.length h.dataSets
  rw [List.length_map, List.length_map] at hentries hsets
  have hheader : p.packetHeader.setSize (p.entries.length + p.dataSets.length) =
      q.packetHeader.setSize (q.entries.length + q.dataSets.length) := by
    rw [EntryHeader.setSize, EntryHeader.setSize, h.cmd, h.sizeWidth, hentries, hsets]
  simp only [Packet.build, hheader, flatMap_build entry_rebuild h.entries,
    flatMap_build dataSet_rebuild h.dataSets]

theorem Same.built (h : Same p q) : Same p.build.2 q where
  cmd := h.cmd
  sizeWidth := h.sizeWidth
  entries := (map_build entry_rebuild p.entries).trans h.entries
  dataSets := (map_build dataSet_rebuild p.dataSets).trans h.dataSets

theorem Same.appendEntry (h : Same p q) (e : DataEntry) :
    Same (p.appendEntry e) (q.appendEntry e) where
  cmd := h.cmd
  sizeWidth := h.sizeWidth
  entries := by
    rw [Packet.appendEntry, Packet.appendEntry, List.map_append, List.map_append, h.entries]
  dataSets := h.dataSets

theorem Same.appendDataSet (h : Same p q) (d : DataSet) :
    Same (p.appendDataSet d) (q.appendDataSet d) where
  cmd := h.cmd
  sizeWidth := h.sizeWidth
  entries := h.entries
  dataSets := by
    rw [Packet.appendDataSet, Packet.appendDataSet, List.map_append, List.map_append, h.dataSets]

theorem Same.copied (h : Same p q) : Same p.copy q.copy :=
  ⟨h.cmd, h.sizeWidth, h.entries, h.dataSets⟩

theorem payload_same {ps qs : List Packet} (h : List.Forall₂ Same ps qs) :
    ps.flatMap (fun p => p.build.1) = qs.flatMap (fun q => q.build.1) := by
  induction h with
  | nil => rfl
  | cons hpq _ ih => rw [List.flatMap_cons, List.flatMap_cons, hpq.bytes, ih]

def SameFrame (t u : TcpPacket) : Prop := List.Forall₂ Same t.packets u.packets

theorem SameFrame.bytes {t u : TcpPacket} (h : SameFrame t u) : t.build.1 = u.build.1 := by
  have hpayload : t.payload = u.payload := payload_same h
  simp only [TcpPacket.build, hpayload]

theorem SameFrame.built {t u : TcpPacket} (h : SameFrame t u) : SameFrame t.build.2 u := by
  rw [SameFrame, TcpPacket.build, List.forall₂_map_left_iff]
  exact h.imp (fun _ _ hpq => hpq.built)

theorem SameFrame.appendPacket {t u : TcpPacket} (h : SameFrame t u) (hpq : Same p q) :
    SameFrame (t.appendPacket p) (u.appendPacket q) :=
  List.rel_append h (.cons hpq.copied .nil)

/-- The packets and frames of a program. -/
structure Objects where
  packets : Nat → Packet
  frames : Nat → TcpPacket

inductive Call
  | appendEntry (packet : Nat) (e : DataEntry)
  | appendDataSet (packet : Nat) (d : DataSet)
  | buildPacket (packet : Nat)
  | appendPacket (frame packet : Nat)
  | buildFrame (frame : Nat)

def Call.appends : Call → Bool
  | .appendEntry _ _ | .appendDataSet _ _ | .appendPacket _ _ => true
  | .buildPacket _ | .buildFrame _ => false

namespace Objects

def setPacket (o : Objects) (i : Nat) (p : Packet) : Objects :=
  { o with packets := Function.update o.packets i p }

def setFrame (o : Objects) (k : Nat) (t : TcpPacket) : Objects :=
  { o with frames := Function.update o.frames k t }

def apply (o : Objects) : Call → Objects
  | .appendEntry i e => o.setPacket i ((o.packets i).appendEntry e)
  | .appendDataSet i d => o.setPacket i ((o.packets i).appendDataSet d)
  | .buildPacket i => o.setPacket i (o.packets i).build.2
  | .appendPacket k i => o.setFrame k ((o.frames k).appendPacket (o.packets i))
  | .buildFrame k => o.setFrame k (o.frames k).build.2

def bytes (o : Objects) : Call → Option (List UInt8)
  | .buildPacket i => some (o.packets i).build.1
  | .buildFrame k => some (o.frames k).build.1
  | .appendEntry _ _ | .appendDataSet _ _ | .appendPacket _ _ => none

def run (o : Objects) (calls : List Call) : Objects := calls.foldl apply o

structure Alike (o o' : Objects) : Prop where
  packets : ∀ i, Same (o.packets i) (o'.packets i)
  frames : ∀ k, SameFrame (o.frames k) (o'.frames k)

variable {o o' : Objects}

theorem Alike.setPacket (h : Alike o o') (i : Nat) (hpq : Same p q) :
    Alike (o.setPacket i p) (o'.setPacket i q) := by
  refine ⟨fun j => ?_, h.frames⟩
  by_cases hj : j = i
  · subst hj
    simpa only [Objects.setPacket, Function.update_self] using hpq
  · simpa only [Objects.setPacket, Function.update_of_ne hj] using h.packets j

theorem Alike.setFrame (h : Alike o o') (k : Nat) {t u : TcpPacket} (htu : SameFrame t u) :
    Alike (o.setFrame k t) (o'.setFrame k u) := by
  refine ⟨h.packets, fun j => ?_⟩
  by_cases hj : j = k
  · subst hj
    simpa only [Objects.setFrame, Function.update_self] using htu
  · simpa only [Objects.setFrame, Function.update_of_ne hj] using h.frames j

theorem Alike.append (h : Alike o o') {c : Call} (hc : c.appends) :
    Alike (o.apply c) (o'.apply c) := by
  cases c with
  | appendEntry i e => exact h.setPacket i ((h.packets i).appendEntry e)
  | appendDataSet i d => exact h.setPacket i ((h.packets i).appendDataSet d)
  | appendPacket k i => exact h.setFrame k ((h.frames k).appendPacket (h.packets i))
  | buildPacket i => cases hc
  | buildFrame k => cases hc

theorem Alike.build (h : Alike o o') {c : Call} (hc : ¬ c.appends) : Alike (o.apply c) o' := by
  cases c with
  | buildPacket i =>
    have hset := h.setPacket i (h.packets i).built
    rwa [Objects.setPacket, Objects.setPacket, Function.update_eq_self] at hset
  | buildFrame k =>
    have hset := h.setFrame k (h.frames k).built
    rwa [Objects.setFrame, Objects.setFrame, Function.update_eq_self] at hset
  | appendEntry i e => exact absurd rfl hc
  | appendDataSet i d => exact absurd rfl hc
  | appendPacket k i => exact absurd rfl hc

theorem Alike.run (h : Alike o o') (calls : List Call) :
    Alike (o.run calls) (o'.run (calls.filter Call.appends)) := by
  rw [Objects.run, Objects.run, List.foldl_filter]
  refine List.foldl_rel h (fun c _ s s' hs => ?_)
  by_cases hc : c.appends
  · rw [if_pos hc]
    exact hs.append hc
  · rw [if_neg hc]
    exact hs.build hc

theorem Alike.bytes (h : Alike o o') (c : Call) : o.bytes c = o'.bytes c := by
  cases c with
  | buildPacket i => exact congrArg some (h.packets i).bytes
  | buildFrame k => exact congrArg some (h.frames k).bytes
  | appendEntry i e | appendDataSet i d | appendPacket k i => rfl

end Objects

/-- After any calls a packet or a frame builds to the bytes of one that was started with, had the
same items appended and was not built before. -/
theorem build_repeatable (o : Objects) (calls : List Call) (c : Call) :
    (o.run calls).bytes c = (o.run (calls.filter Call.appends)).bytes c := by
  have hstart : Objects.Alike o o :=
    ⟨fun i => .refl (o.packets i), fun k => List.forall₂_same.mpr (fun p _ => .refl p)⟩
  exact (hstart.run calls).bytes c

end GlobalAgenda.Rebuilding
