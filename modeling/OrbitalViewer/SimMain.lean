import OrbitalViewer.DisBuilder
import OrbitalViewer.Mission

/-!
# The simulator's send loop

`main` of `tools/simulator/src/main.cpp`, from its frames to the socket. A send may
fail at any time and the loop goes on. What the loop builds does not depend on that
(`simulator_run`), so at the backend a run in OLV1 mode is in order however many
sends are lost (`lossy_run`).
-/

namespace Olv.Sim
open Wire (Byte)
open Ieee (F64)
open Proto (ObjectRecord)

/-- The variables of the loop, and what the socket took. -/
structure Sender where
  seq : U32 := 0
  cycles : ℕ := 0
  packetsSent : ℕ := 0
  bytesSent : ℕ := 0
  sendErrors : ℕ := 0
  olv2Batcher : Olv2Batcher
  wire : List (List Byte) := []

/-- `dis_cfg`; a text that does not parse leaves the defaults. -/
def disEmitConfig (cfg : SimConfig) : DisEmitConfig :=
  let ids := (parseDisEntityId cfg.disSatelliteEntityId).getD (1, 1, 1)
  { exerciseId := cfg.disExerciseId.setWidth 8
    site := cfg.disSite.setWidth 16
    satSite := ids.1
    satApplication := ids.2.1
    satEntity := ids.2.2 }

/-- `static_cast<std::size_t>` of an `int`. -/
def toSize (n : I32) : ℕ := (n.signExtend 64).toNat

section Loop
variable (marshal : OutPdu → List Byte) (cfg : SimConfig) (startEpoch : F64)
  (takes : ℕ → Bool)

/-- The time of a cycle since the start. -/
def cycleTime (cycles : ℕ) : F64 := (F64.ofNat cycles).div cfg.rateHz

/-- The datagrams of a frame, with `seq` and the batcher after them. -/
def packetsFor (seq : U32) (cycles : ℕ) (batcher : Olv2Batcher) (frame : Frame) :
    List (List Byte) × U32 × Olv2Batcher :=
  match cfg.protocol with
  | .kDis => (buildDisPdus marshal frame (disEmitConfig cfg) (cycleTime cfg cycles), seq, batcher)
  | .kOlv2 => sendFrame batcher seq (startEpoch.add (cycleTime cfg cycles)) frame
  | .kOlv1 =>
    let r := buildPackets frame (toSize cfg.chunk) seq
    (r.1, r.2, batcher)

namespace Sender

/-- `takes` says which calls of `socket.send` succeed. -/
def sendPackets (s : Sender) (packets : List (List Byte)) : Sender :=
  packets.foldl (fun s pkt =>
    if takes (s.packetsSent + s.sendErrors) then { s with
      packetsSent := s.packetsSent + 1
      bytesSent := s.bytesSent + pkt.length
      wire := s.wire ++ [pkt] }
    else { s with sendErrors := s.sendErrors + 1 }) s

/-- What a builder returns, taken over and sent. -/
def hand (s : Sender) (r : List (List Byte) × U32 × Olv2Batcher) : Sender :=
  { s with seq := r.2.1, olv2Batcher := r.2.2 }.sendPackets takes r.1

def sendFrame (s : Sender) (frame : Frame) : Sender :=
  let s := s.hand takes (packetsFor marshal cfg startEpoch s.seq s.cycles s.olv2Batcher frame)
  { s with cycles := s.cycles + 1 }

/-- The flush at a normal end. -/
def finish (s : Sender) : Sender :=
  if cfg.protocol = .kOlv2 ∧ ¬ s.olv2Batcher.empty then s.hand takes (s.olv2Batcher.flush s.seq)
  else s

end Sender

/-- Where the loop was stopped by a signal, or ended. -/
structure Outcome where
  sender : Sender
  ended : Bool

/-- The loop over the frames of a file, for so many rounds unless it ends. -/
def csvLoop (frames : List Frame) : ℕ → ℕ → Sender → Outcome
  | 0, _, s => ⟨s, false⟩
  | rounds + 1, csvIndex, s =>
    if csvIndex < frames.length then
      csvLoop frames rounds (csvIndex + 1)
        (s.sendFrame marshal cfg startEpoch takes (frames.getD csvIndex {}))
    else if cfg.loop then
      csvLoop frames rounds 1 (s.sendFrame marshal cfg startEpoch takes (frames.getD 0 {}))
    else ⟨s.finish cfg takes, true⟩

/-- `--duration` is over. -/
def durationOver (elapsed : F64) : Bool :=
  let durationS := toDouble cfg.durationSeconds.toInt
  (F64.ofNat 0).datum.lt durationS.datum && durationS.datum.le elapsed.datum

/-- The loop over generated frames, with the readings of the clock. -/
def generateLoop (frameAt : F64 → Frame) : List F64 → Sender → Outcome
  | [], s => ⟨s, false⟩
  | elapsed :: clock, s =>
    if durationOver cfg elapsed then ⟨s.finish cfg takes, true⟩
    else generateLoop frameAt clock (s.sendFrame marshal cfg startEpoch takes (frameAt elapsed))

def startSender : Sender := { olv2Batcher := .new (toSize cfg.olv2Points) }

/-- What the loop is over: the frames of a file, of which there are some, or a
generator and the readings of the clock. -/
inductive Source
  | csv (frames : List Frame) (nonempty : frames ≠ []) (rounds : ℕ)
  | generator (frameAt : F64 → Frame) (clock : List F64)

def runLoop : Source → Outcome
  | .csv frames _ rounds =>
    csvLoop marshal cfg startEpoch takes frames rounds 0 (startSender cfg)
  | .generator frameAt clock =>
    generateLoop marshal cfg startEpoch takes frameAt clock (startSender cfg)

/-! ## What a run sends -/

namespace Source

/-- The frames that are sent. -/
def sent : Source → List Frame
  | csv frames _ rounds =>
    if cfg.loop then (List.range rounds).map fun k => frames.getD (k % frames.length) {}
    else frames.take rounds
  | generator frameAt clock => (clock.takeWhile fun t => !durationOver cfg t).map frameAt

/-- The run comes to its end before a signal stops it. -/
def ends : Source → Bool
  | csv frames _ rounds => !cfg.loop && decide (frames.length < rounds)
  | generator _ clock => clock.any (durationOver cfg)

end Source

/-- The packets of frames one after the other, from `seq` on. -/
def framePackets (chunk : ℕ) : U32 → List Frame → List Proto.StatePacket
  | _, [] => []
  | seq, frame :: frames => packetsOf frame seq (chunksOf frame chunk) ++
      framePackets chunk (Serial.stamp seq (chunksOf frame chunk).length) frames

/-- Frames with the times of their cycles, the first of which is `cycles`. -/
def timed (cycles : ℕ) (frames : List Frame) : List (F64 × Frame) :=
  (frames.zipIdx cycles).map fun e => (startEpoch.add (cycleTime cfg e.2), e.1)

/-- The datagrams of frames from here on, with what the batcher holds back until
the end. -/
def Sender.datagrams (s : Sender) (frames : List Frame) : List (List Byte) :=
  match cfg.protocol with
  | .kOlv1 => (framePackets (toSize cfg.chunk) s.seq frames).map Proto.encode
  | .kDis => (frames.zipIdx s.cycles).flatMap fun e =>
      buildDisPdus marshal e.1 (disEmitConfig cfg) (cycleTime cfg e.2)
  | .kOlv2 => sendRun s.olv2Batcher s.seq (timed cfg startEpoch s.cycles frames)

end Loop

/-! ## Counters -/

section Counters
variable {marshal : OutPdu → List Byte} {cfg : SimConfig} {startEpoch : F64} {takes : ℕ → Bool}
  {s : Sender} {built : List (List Byte)}

variable (takes) in
/-- What a call of `send` took. -/
def taken {α : Type} (built : List α) : List α := (built.zipIdx.filter fun e => takes e.2).map Prod.fst

variable (takes) in
/-- The counters tell of what was built so far. -/
structure Counted (built : List (List Byte)) (s : Sender) : Prop where
  attempts : s.packetsSent + s.sendErrors = built.length
  wire : s.wire = taken takes built
  packetsSent : s.packetsSent = s.wire.length
  bytesSent : s.bytesSent = (s.wire.map List.length).sum

theorem taken_concat {α : Type} (built : List α) (pkt : α) :
    taken takes (built ++ [pkt]) = taken takes built ++ if takes built.length then [pkt] else [] := by
  unfold taken
  rw [List.zipIdx_append, List.filter_append, List.map_append]
  congr 1
  cases h : takes built.length <;> simp [h]

theorem sendPackets_concat (s : Sender) (packets : List (List Byte)) (pkt : List Byte) :
    s.sendPackets takes (packets ++ [pkt]) = (s.sendPackets takes packets).sendPackets takes [pkt] :=
  List.foldl_append

theorem Counted.sendPackets (h : Counted takes built s) (packets : List (List Byte)) :
    Counted takes (built ++ packets) (s.sendPackets takes packets) := by
  induction packets using List.reverseRecOn with
  | nil =>
    rw [List.append_nil]
    exact h
  | append_singleton packets pkt ih =>
    rw [sendPackets_concat, ← List.append_assoc]
    generalize s.sendPackets takes packets = s at ih
    generalize built ++ packets = built at ih
    unfold Sender.sendPackets
    rw [List.foldl_cons, List.foldl_nil, ih.attempts]
    cases htakes : takes built.length with
    | true =>
      rw [if_pos rfl]
      constructor
      · dsimp only
        rw [List.length_append, ← ih.attempts]
        exact Nat.add_right_comm ..
      · dsimp only
        rw [taken_concat, htakes, ih.wire]
        rfl
      · simp [ih.packetsSent]
      · simp [ih.bytesSent]
    | false =>
      rw [if_neg (by decide)]
      constructor
      · dsimp only
        rw [List.length_append, ← ih.attempts]
        rfl
      · dsimp only
        rw [taken_concat, htakes, ih.wire]
        exact (List.append_nil _).symm
      · exact ih.packetsSent
      · exact ih.bytesSent

/-- Sending leaves the rest of the sender alone. -/
theorem sendPackets_keeps (s : Sender) (packets : List (List Byte)) :
    (s.sendPackets takes packets).seq = s.seq ∧ (s.sendPackets takes packets).cycles = s.cycles ∧
      (s.sendPackets takes packets).olv2Batcher = s.olv2Batcher := by
  refine List.foldlRecOn (motive := fun t : Sender =>
    t.seq = s.seq ∧ t.cycles = s.cycles ∧ t.olv2Batcher = s.olv2Batcher) packets _ ⟨rfl, rfl, rfl⟩ ?_
  intro t ht pkt _
  split <;> exact ht

variable (takes) in
theorem hand_keeps (s : Sender) (r : List (List Byte) × U32 × Olv2Batcher) :
    (s.hand takes r).seq = r.2.1 ∧ (s.hand takes r).cycles = s.cycles ∧
      (s.hand takes r).olv2Batcher = r.2.2 :=
  sendPackets_keeps { s with seq := r.2.1, olv2Batcher := r.2.2 } r.1

theorem Counted.hand (h : Counted takes built s) (r : List (List Byte) × U32 × Olv2Batcher) :
    Counted takes (built ++ r.1) (s.hand takes r) := by
  have hstart : Counted takes built { s with seq := r.2.1, olv2Batcher := r.2.2 } :=
    ⟨h.attempts, h.wire, h.packetsSent, h.bytesSent⟩
  exact hstart.sendPackets r.1

end Counters

/-! ## Runs -/

section Runs
variable {marshal : OutPdu → List Byte} {cfg : SimConfig} {startEpoch : F64} {takes : ℕ → Bool}
  {s : Sender} {built : List (List Byte)}

/-- The datagrams from one frame on are those of the frame and then the rest. -/
theorem datagrams_cons (frame : Frame) (later : List Frame) :
    s.datagrams marshal cfg startEpoch (frame :: later) =
      (packetsFor marshal cfg startEpoch s.seq s.cycles s.olv2Batcher frame).1 ++
        (s.sendFrame marshal cfg startEpoch takes frame).datagrams marshal cfg startEpoch later := by
  obtain ⟨hseq, hcycles, hbatcher⟩ := hand_keeps takes s
    (packetsFor marshal cfg startEpoch s.seq s.cycles s.olv2Batcher frame)
  simp only [Sender.datagrams, Sender.sendFrame, hseq, hcycles, hbatcher]
  cases hprotocol : cfg.protocol with
  | kOlv1 =>
    simp only [packetsFor, hprotocol, buildPackets_eq]
    rw [framePackets, List.map_append]
  | kDis => simp only [packetsFor, hprotocol, List.zipIdx_cons, List.flatMap_cons]
  | kOlv2 => simp only [packetsFor, hprotocol, timed, List.zipIdx_cons, List.map_cons, sendRun]

variable (marshal cfg startEpoch) in
/-- Some rounds of the loop. -/
theorem foldl_datagrams (h : Counted takes built s) (frames : List Frame) :
    ∃ packets, Counted takes (built ++ packets)
        (frames.foldl (Sender.sendFrame marshal cfg startEpoch takes) s) ∧
      (frames.foldl (Sender.sendFrame marshal cfg startEpoch takes) s).cycles =
        s.cycles + frames.length ∧
      s.datagrams marshal cfg startEpoch frames = packets ++
        (frames.foldl (Sender.sendFrame marshal cfg startEpoch takes) s).datagrams marshal cfg
          startEpoch [] := by
  induction frames generalizing s built with
  | nil => exact ⟨[], (List.append_nil built).symm ▸ h, rfl, rfl⟩
  | cons frame frames ih =>
    have hnow := h.hand (packetsFor marshal cfg startEpoch s.seq s.cycles s.olv2Batcher frame)
    obtain ⟨later, hlast, hcycles, hlater⟩ := ih (s := s.sendFrame marshal cfg startEpoch takes frame)
      ⟨hnow.attempts, hnow.wire, hnow.packetsSent, hnow.bytesSent⟩
    refine ⟨_ ++ later, List.append_assoc built _ later ▸ hlast, ?_, ?_⟩
    · rw [List.foldl_cons, hcycles, List.length_cons, ← Nat.add_assoc, Nat.add_right_comm]
      exact congrArg (· + 1 + frames.length) (hand_keeps takes s _).2.1
    · rw [datagrams_cons, hlater, List.append_assoc]
      rfl

variable (marshal cfg startEpoch) in
/-- The end of the loop. -/
theorem finish_datagrams (h : Counted takes built s) :
    Counted takes (built ++ s.datagrams marshal cfg startEpoch []) (s.finish cfg takes) ∧
      (s.finish cfg takes).cycles = s.cycles ∧
      (s.finish cfg takes).datagrams marshal cfg startEpoch [] = [] := by
  have hidle (hnone : s.datagrams marshal cfg startEpoch [] = []) :
      Counted takes (built ++ s.datagrams marshal cfg startEpoch []) s ∧ s.cycles = s.cycles ∧
        s.datagrams marshal cfg startEpoch [] = [] := by
    rw [hnone, List.append_nil]
    exact ⟨h, rfl, rfl⟩
  unfold Sender.finish
  cases hprotocol : cfg.protocol with
  | kOlv1 => exact hidle (by simp only [Sender.datagrams, hprotocol, framePackets, List.map_nil])
  | kDis => exact hidle (by simp only [Sender.datagrams, hprotocol]; rfl)
  | kOlv2 =>
    cases hempty : s.olv2Batcher.empty with
    | true => exact hidle (by simp [Sender.datagrams, hprotocol, timed, sendRun, hempty])
    | false =>
      have hflushed : s.datagrams marshal cfg startEpoch [] = (s.olv2Batcher.flush s.seq).1 := by
        simp [Sender.datagrams, hprotocol, timed, sendRun, hempty]
      obtain ⟨_, hcycles, hbatcher⟩ := hand_keeps takes s (s.olv2Batcher.flush s.seq)
      rw [if_pos ⟨rfl, Bool.false_ne_true⟩]
      refine ⟨hflushed.symm ▸ h.hand (s.olv2Batcher.flush s.seq), hcycles, ?_⟩
      simp only [Sender.datagrams, hprotocol, timed, List.zipIdx_nil, List.map_nil, sendRun, hbatcher]
      rw [if_pos]
      unfold Olv2Batcher.flush
      split
      · rename_i hnil
        exact List.isEmpty_iff.mpr hnil
      · rfl

/-- Round and round through a file, `j` rounds after its start. -/
theorem csvLoop_loop (hloop : cfg.loop = true) {frames : List Frame} (hne : frames ≠ [])
    (rounds : ℕ) {i j : ℕ} (hi : i = j % frames.length ∨ i = frames.length ∧ j % frames.length = 0)
    (s : Sender) :
    csvLoop marshal cfg startEpoch takes frames rounds i s =
      ⟨((List.range' j rounds).map fun k => frames.getD (k % frames.length) {}).foldl
        (Sender.sendFrame marshal cfg startEpoch takes) s, false⟩ := by
  have hpos : 0 < frames.length := List.length_pos_iff.mpr hne
  induction rounds generalizing i j s with
  | zero => rfl
  | succ rounds ih =>
    have hsucc (hone : (j % frames.length + 1) ≤ frames.length) :
        j % frames.length + 1 = (j + 1) % frames.length ∨
          j % frames.length + 1 = frames.length ∧ (j + 1) % frames.length = 0 := by
      have hmod := Nat.add_mod j 1 frames.length
      rcases Nat.lt_or_eq_of_le hone with hlt | heq
      · have hsmall : 1 % frames.length = 1 := Nat.mod_eq_of_lt (by omega)
        rw [hsmall, Nat.mod_eq_of_lt hlt] at hmod
        exact .inl hmod.symm
      · refine .inr ⟨heq, ?_⟩
        rw [← Nat.mod_add_mod, heq, Nat.mod_self]
    have hstep := hsucc (Nat.mod_lt j hpos)
    rw [csvLoop, List.range'_succ, List.map_cons, List.foldl_cons]
    rcases hi with rfl | ⟨rfl, hzero⟩
    · rw [if_pos (Nat.mod_lt j hpos)]
      exact ih hstep _
    · rw [if_neg (Nat.lt_irrefl _), if_pos hloop, hzero]
      rw [hzero] at hstep
      exact ih hstep _

/-- Once through the rest of a file. -/
theorem csvLoop_once (hloop : cfg.loop = false) (frames : List Frame) (rounds i : ℕ) (s : Sender) :
    csvLoop marshal cfg startEpoch takes frames rounds i s =
      let last := ((frames.drop i).take rounds).foldl
        (Sender.sendFrame marshal cfg startEpoch takes) s
      if frames.length - i < rounds then ⟨last.finish cfg takes, true⟩ else ⟨last, false⟩ := by
  induction rounds generalizing i s with
  | zero => rfl
  | succ rounds ih =>
    rw [csvLoop]
    by_cases hi : i < frames.length
    · have hdrop : frames.drop i = frames.getD i {} :: frames.drop (i + 1) := by
        rw [List.getD_eq_getElem frames {} hi]
        exact List.drop_eq_getElem_cons hi
      have hmore : frames.length - (i + 1) < rounds ↔ frames.length - i < rounds + 1 := by omega
      rw [if_pos hi, ih, hdrop]
      simp only [List.take_succ_cons, List.foldl_cons, hmore]
    · have hnil : frames.drop i = [] := List.drop_eq_nil_of_le (not_lt.mp hi)
      have hover : frames.length - i < rounds + 1 := by omega
      rw [if_neg hi, if_neg (by rw [hloop]; exact Bool.false_ne_true), hnil]
      exact (if_pos hover).symm

theorem generateLoop_eq (frameAt : F64 → Frame) (clock : List F64) (s : Sender) :
    generateLoop marshal cfg startEpoch takes frameAt clock s =
      let last := ((clock.takeWhile fun t => !durationOver cfg t).map frameAt).foldl
        (Sender.sendFrame marshal cfg startEpoch takes) s
      if clock.any (durationOver cfg) then ⟨last.finish cfg takes, true⟩ else ⟨last, false⟩ := by
  induction clock generalizing s with
  | nil => rfl
  | cons elapsed clock ih =>
    rw [generateLoop, List.any_cons]
    cases hdone : durationOver cfg elapsed with
    | true => simp [hdone]
    | false =>
      rw [if_neg Bool.false_ne_true, ih, List.takeWhile_cons_of_pos (by rw [hdone]; rfl),
        Bool.false_or]
      rfl

/-- The loop sends the frames of its source one by one, and finishes if it ends. -/
theorem runLoop_eq (source : Source) :
    runLoop marshal cfg startEpoch takes source =
      let last := (source.sent cfg).foldl (Sender.sendFrame marshal cfg startEpoch takes)
        (startSender cfg)
      if source.ends cfg then ⟨last.finish cfg takes, true⟩ else ⟨last, false⟩ := by
  cases source with
  | csv frames hne rounds =>
    unfold Source.sent Source.ends
    cases hloop : cfg.loop with
    | true =>
      rw [runLoop, csvLoop_loop hloop hne rounds (j := 0) (.inl (Nat.zero_mod _).symm),
        ← List.range_eq_range']
      rfl
    | false =>
      rw [runLoop, csvLoop_once hloop]
      simp
  | generator frameAt clock => exact generateLoop_eq frameAt clock _

/-- What was built in a run, and what it left. -/
structure Ran (marshal : OutPdu → List Byte) (cfg : SimConfig) (startEpoch : F64) (takes : ℕ → Bool)
    (frames : List Frame) (r : Outcome) (built : List (List Byte)) : Prop where
  counted : Counted takes built r.sender
  cycles : r.sender.cycles = frames.length
  datagrams : (startSender cfg).datagrams marshal cfg startEpoch frames =
    built ++ r.sender.datagrams marshal cfg startEpoch []
  ended : r.ended = true → r.sender.datagrams marshal cfg startEpoch [] = []

variable (marshal cfg startEpoch takes) in
theorem runLoop_ran (source : Source) : ∃ built, Ran marshal cfg startEpoch takes (source.sent cfg)
    (runLoop marshal cfg startEpoch takes source) built := by
  have hstart : Counted takes [] (startSender cfg) := ⟨rfl, rfl, rfl, rfl⟩
  obtain ⟨built, hcounted, hcycles, hbuilt⟩ := foldl_datagrams marshal cfg startEpoch hstart
    (source.sent cfg)
  have hlength := hcycles.trans (Nat.zero_add _)
  rw [runLoop_eq]
  dsimp only
  split
  · obtain ⟨hend, hsame, hnone⟩ := finish_datagrams marshal cfg startEpoch hcounted
    exact ⟨_, hend, hsame.trans hlength, hbuilt.trans (by rw [hnone, List.append_nil]; rfl),
      fun _ => hnone⟩
  · exact ⟨_, hcounted, hlength, hbuilt, fun hended => nomatch hended⟩

/-- The two build the same from here on. -/
structure Alike (s t : Sender) : Prop where
  seq : s.seq = t.seq
  cycles : s.cycles = t.cycles
  olv2Batcher : s.olv2Batcher = t.olv2Batcher

theorem Alike.datagrams {t : Sender} (h : Alike s t) (frames : List Frame) :
    s.datagrams marshal cfg startEpoch frames = t.datagrams marshal cfg startEpoch frames := by
  unfold Sender.datagrams
  rw [h.seq, h.cycles, h.olv2Batcher]

variable (takes) in
theorem Alike.hand {t : Sender} (h : Alike s t) (takes' : ℕ → Bool)
    (r : List (List Byte) × U32 × Olv2Batcher) : Alike (s.hand takes r) (t.hand takes' r) := by
  obtain ⟨hseq, hcycles, hbatcher⟩ := hand_keeps takes s r
  obtain ⟨hseq', hcycles', hbatcher'⟩ := hand_keeps takes' t r
  exact ⟨hseq.trans hseq'.symm, hcycles.trans (h.cycles.trans hcycles'.symm),
    hbatcher.trans hbatcher'.symm⟩

variable (marshal cfg startEpoch takes) in
theorem Alike.foldl {t : Sender} (h : Alike s t) (takes' : ℕ → Bool) (frames : List Frame) :
    Alike (frames.foldl (Sender.sendFrame marshal cfg startEpoch takes) s)
      (frames.foldl (Sender.sendFrame marshal cfg startEpoch takes') t) := by
  induction frames generalizing s t with
  | nil => exact h
  | cons frame frames ih =>
    apply ih
    unfold Sender.sendFrame
    rw [h.seq, h.cycles, h.olv2Batcher]
    have hhanded := h.hand takes takes' (packetsFor marshal cfg startEpoch t.seq t.cycles t.olv2Batcher frame)
    exact ⟨hhanded.seq, congrArg (· + 1) hhanded.cycles, hhanded.olv2Batcher⟩

theorem Alike.finish {t : Sender} (h : Alike s t) {takes' : ℕ → Bool} :
    Alike (s.finish cfg takes) (t.finish cfg takes') := by
  unfold Sender.finish
  rw [h.seq, h.olv2Batcher]
  split
  · exact h.hand takes takes' _
  · exact h

/-- What is left does not depend on which sends fail. -/
theorem runLoop_alike (source : Source) (takes' : ℕ → Bool) :
    Alike (runLoop marshal cfg startEpoch takes source).sender
      (runLoop marshal cfg startEpoch takes' source).sender := by
  have hstart : Alike (startSender cfg) (startSender cfg) := ⟨rfl, rfl, rfl⟩
  have hlast := hstart.foldl marshal cfg startEpoch takes takes' (source.sent cfg)
  rw [runLoop_eq, runLoop_eq]
  dsimp only
  split
  · exact hlast.finish
  · exact hlast

/-- **A run of the simulator.** In each mode the loop hands to the socket, frame after
frame, the datagrams of the frames it sends, but for what is still in the batcher when a
signal stops it; a run that ends has sent that too. What it hands over does not depend on
which sends fail, and the counters tell which of it was taken. -/
theorem simulator_run (marshal : OutPdu → List Byte) (cfg : SimConfig) (startEpoch : F64)
    (source : Source) :
    ∃ built, ∀ takes, Ran marshal cfg startEpoch takes (source.sent cfg)
      (runLoop marshal cfg startEpoch takes source) built := by
  obtain ⟨built, hran⟩ := runLoop_ran marshal cfg startEpoch (fun _ => true) source
  refine ⟨built, fun takes => ?_⟩
  obtain ⟨built', hran'⟩ := runLoop_ran marshal cfg startEpoch takes source
  have hsame : built' = built := by
    have hboth := hran'.datagrams.symm.trans hran.datagrams
    rw [(runLoop_alike source fun _ => true).datagrams] at hboth
    exact List.append_cancel_right hboth
  exact hsame ▸ hran'

end Runs
end Olv.Sim
