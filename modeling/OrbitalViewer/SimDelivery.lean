import OrbitalViewer.SimMain
import OrbitalViewer.StaleSequence

/-!
# A run with lost sends at the backend

In OLV1 mode a packet that the socket does not take keeps its sequence. What the socket
takes is in the window of the store's staleness test unless it takes none of 2^31 - 1
packets in a row, so the backend accepts all that it gets (`lossy_run`).
-/

namespace Olv.Sim
open Wire (Byte)
open Ieee (F64)
open Proto (StatePacket)
open StateStore (table)

/-! ## Packets that are taken -/

/-- Of 2^31 - 1 sends in a row at least one is taken. -/
def Reaches (takes : ℕ → Bool) : Prop := ∀ k, ∃ j, j + 1 < 2 ^ 31 ∧ takes (k + j) = true

/-- The next index that is delivered. -/
def Next (i j : ℕ) : Prop := i < j ∧ j < i + 2 ^ 31

section Taken
variable {takes : ℕ → Bool}

theorem taken_range' (htakes : Reaches takes) (n : ℕ) {k : ℕ} {high : Option ℕ}
    (hhigh : ∀ t ∈ high, t < k ∧ ∀ m, t < m → m < k → takes m = false) :
    (high.toList ++ (List.range' k n).filter takes).IsChain Next := by
  induction n generalizing k high with
  | zero => cases high <;> simp
  | succ n ih =>
    rw [List.range'_succ]
    cases htaken : takes k with
    | false =>
      rw [List.filter_cons_of_neg (by rw [htaken]; exact Bool.false_ne_true)]
      refine ih fun t ht => ⟨(hhigh t ht).1.trans (Nat.lt_succ_self k), fun m htm hmk => ?_⟩
      rcases Nat.lt_succ_iff_lt_or_eq.mp hmk with hlt | rfl
      · exact (hhigh t ht).2 m htm hlt
      · exact htaken
    | true =>
      rw [List.filter_cons_of_pos htaken]
      have hrest : ((some k).toList ++ (List.range' (k + 1) n).filter takes).IsChain Next :=
        ih fun t ht => ⟨by cases ht; exact Nat.lt_succ_self k, fun m htm hmk => by cases ht; omega⟩
      cases high with
      | none => exact hrest
      | some t =>
        obtain ⟨htk, hlost⟩ := hhigh t rfl
        refine List.isChain_cons_cons.mpr ⟨⟨htk, ?_⟩, hrest⟩
        obtain ⟨j, hj, hreached⟩ := htakes (t + 1)
        have hpast : k ≤ t + 1 + j := by
          by_contra hbefore
          rw [hlost (t + 1 + j) (by omega) (by omega)] at hreached
          cases hreached
        omega

/-- What is taken, by its indices. -/
theorem taken_eq {α : Type} (built : List α) (a : α) :
    taken takes built = ((List.range built.length).filter takes).map fun i => built.getD i a := by
  induction built using List.reverseRecOn with
  | nil => rfl
  | append_singleton built x ih =>
    rw [taken_concat, ih, List.length_append, List.length_singleton, List.range_succ,
      List.filter_append, List.map_append]
    congr 1
    · refine List.map_congr_left fun i hi => ?_
      have hlt := List.mem_range.mp (List.mem_of_mem_filter hi)
      exact (List.getD_append _ _ _ _ hlt).symm
    · cases htaken : takes built.length <;> simp [htaken]

theorem taken_map {α β : Type} (f : α → β) (built : List α) :
    taken takes (built.map f) = (taken takes built).map f := by
  unfold taken
  rw [List.zipIdx_map, List.filter_map, List.map_map, List.map_map]
  rfl

end Taken

/-! ## At the OLV1 source -/

/-- The datagram holds the packet of the index. -/
structure Holds (sender : StateStore.Sender) (d : Datagram) (k : ℕ) : Prop where
  documented : Proto.Documented d.bytes
  packet : Proto.packetAt d.bytes = sender.packet k

section Source
variable {sender : StateStore.Sender}

theorem step_next {store : StateStore} {high : Option ℕ} (h : StateStore.Follows sender store high)
    {k : ℕ} (hnext : ∀ t ∈ high, Next t k) {d : Datagram} (hd : Holds sender d k) :
    let r := olv1InputSource.step (.datagram d) ⟨(), store⟩
    r.1 = .outcome .accepted ∧ StateStore.Follows sender r.2.store (some k) ∧
    rowsOf r.2.store = overwrite (rowsOf store) (sender.body k).objects := by
  have hv := (Proto.verdict_iff d.bytes).mpr hd.documented
  rcases Olv1InputSource.handleDatagram_cases d with ⟨hbad, _⟩ | ⟨_, heq⟩
  · exact absurd hv hbad
  obtain ⟨log, hs⟩ := heq store
  have hreceived : StateStore.Follows sender (store.countReceived d.bytes.length) high :=
    ⟨h.have_seq, h.last_seq, h.satellite⟩
  have hfresh := (hreceived.stale_iff (k := k) fun t ht =>
    ⟨(hnext t ht).2, Nat.lt_add_right _ (hnext t ht).1⟩).mpr fun t ht => (hnext t ht).1
  have hstep : olv1InputSource.step (.datagram d) ⟨(), store⟩ =
      (.outcome (Olv1InputSource.handleDatagram d store).outcome,
        ⟨(), (Olv1InputSource.handleDatagram d store).store⟩) := rfl
  dsimp only
  rw [hstep, hs, hd.packet]
  dsimp only
  rw [StateStore.apply_fresh hfresh]
  refine ⟨rfl, ⟨rfl, fun t ht => ?_, rfl⟩, rowsOf_merge d.mono (sender.body k).objects store.objects⟩
  cases ht
  rfl

/-- Packets of ascending indices, none half the number space after the one before. -/
theorem run_chain {indices : List ℕ} {ds : List Datagram} (hds : List.Forall₂ (Holds sender) ds indices)
    {store : StateStore} {high : Option ℕ} (h : StateStore.Follows sender store high)
    (hchain : (high.toList ++ indices).IsChain Next) :
    let s : olv1InputSource.State := ⟨(), store⟩
    let final := (olv1InputSource.run s (ds.map .datagram)).store
    (∀ o ∈ olv1InputSource.observe s (ds.map .datagram), o = .outcome .accepted) ∧
    StateStore.Follows sender final (indices.getLast?.or high) ∧
    rowsOf final = overwrite (rowsOf store) (indices.flatMap fun k => (sender.body k).objects) := by
  induction hds generalizing store high with
  | nil => exact ⟨fun o ho => absurd ho List.not_mem_nil, h, rfl⟩
  | @cons d k ds indices hd _ ih =>
    have hnext : ∀ t ∈ high, Next t k := by
      intro t ht
      cases ht
      exact (List.isChain_cons_cons.mp hchain).1
    have hrest : ((some k).toList ++ indices).IsChain Next := by
      cases high with
      | none => exact hchain
      | some t => exact (List.isChain_cons_cons.mp hchain).2
    obtain ⟨houtcome, hfollows, hrows⟩ := step_next h hnext hd
    obtain ⟨hall, hlast, htable⟩ := ih hfollows hrest
    refine ⟨?_, ?_, ?_⟩
    · intro o ho
      rcases List.mem_cons.mp ho with rfl | ho
      · exact houtcome
      · exact hall o ho
    · have hor : (k :: indices).getLast?.or high = indices.getLast?.or (some k) := by
        rw [List.getLast?_cons]
        cases indices.getLast? <;> rfl
      rw [hor]
      exact hlast
    · rw [List.flatMap_cons, overwrite_append, ← hrows]
      exact htable

end Source

/-! ## Packets of a run -/

theorem mem_framePackets {chunk : ℕ} {seq : U32} {frames : List Frame} {pkt : StatePacket}
    (h : pkt ∈ framePackets chunk seq frames) :
    ∃ frame ∈ frames, ∃ objects ∈ chunksOf frame chunk, ∃ seq, pkt = packetFor frame seq objects := by
  induction frames generalizing seq with
  | nil => cases h
  | cons frame frames ih =>
    rcases List.mem_append.mp h with hnow | hlater
    · exact ⟨frame, List.mem_cons_self, mem_packetsOf hnow⟩
    · obtain ⟨later, hmem, hpkt⟩ := ih hlater
      exact ⟨later, List.mem_cons_of_mem frame hmem, hpkt⟩

/-- The packets of a run are numbered through. -/
theorem sequence_framePackets {chunk : ℕ} {seq : U32} {frames : List Frame} {k : ℕ}
    {pkt : StatePacket} (h : (framePackets chunk seq frames)[k]? = some pkt) :
    pkt.sequence = Serial.stamp seq k := by
  induction frames generalizing seq k with
  | nil => cases h
  | cons frame frames ih =>
    rw [framePackets, List.getElem?_append] at h
    split at h
    · rw [getElem?_packetsOf] at h
      obtain ⟨objects, _, rfl⟩ := Option.map_eq_some_iff.mp h
      rfl
    · rename_i hlater
      have hseq := ih h
      rw [length_packetsOf] at hseq hlater
      rw [hseq, Serial.stamp_add, Nat.add_sub_cancel' (not_lt.mp hlater)]

theorem framePackets_decodes {chunk : ℕ} {frames : List Frame}
    (hsound : ∀ frame ∈ frames, SoundFrame frame) {seq : U32} :
    ∀ pkt ∈ framePackets chunk seq frames, Proto.Documented (Proto.encode pkt) := by
  intro pkt hpkt
  obtain ⟨frame, hframe, objects, hobjects, seq, rfl⟩ := mem_framePackets hpkt
  obtain ⟨hlen, hle, hsub⟩ := cut_chunksOf frame chunk objects hobjects
  exact (packetFor_decodes (hsound frame hframe) seq hsub hlen hle).1

/-- The packets as the backend reads them. -/
def readBack (pkts : List StatePacket) : StateStore.Sender := ⟨0, fun k => (pkts.getD k {}).capped⟩

theorem readBack_packet {pkts : List StatePacket}
    (hsequence : ∀ k pkt, pkts[k]? = some pkt → pkt.sequence = Serial.stamp 0 k) {k : ℕ}
    (hk : k < pkts.length) :
    (readBack pkts).packet k = (pkts.getD k {}).capped ∧ pkts.getD k {} ∈ pkts := by
  have hget : pkts[k]? = some (pkts.getD k {}) := by
    rw [List.getElem?_eq_getElem hk, List.getD_eq_getElem pkts {} hk]
  refine ⟨?_, List.mem_of_getElem? hget⟩
  simp only [StateStore.Sender.packet, readBack]
  rw [← hsequence k _ hget]
  rfl

/-- Datagrams of some of the packets. -/
theorem holds_of_bytes {pkts : List StatePacket}
    (hdecodes : ∀ pkt ∈ pkts, Proto.Documented (Proto.encode pkt))
    (hsequence : ∀ k pkt, pkts[k]? = some pkt → pkt.sequence = Serial.stamp 0 k)
    {takes : ℕ → Bool} {ds : List Datagram}
    (hds : ds.map Datagram.bytes =
      (((List.range pkts.length).filter takes).map fun k => pkts.getD k {}).map Proto.encode) :
    List.Forall₂ (Holds (readBack pkts)) ds ((List.range pkts.length).filter takes) := by
  have hbytes : List.Forall₂ (fun (d : Datagram) k => d.bytes = Proto.encode (pkts.getD k {})) ds
      ((List.range pkts.length).filter takes) := by
    rw [← List.forall₂_eq_eq_eq, List.map_map] at hds
    exact List.forall₂_map_right_iff.mp (List.forall₂_map_left_iff.mp hds)
  obtain ⟨hlength, hzip⟩ := List.forall₂_iff_zip.mp hbytes
  refine List.forall₂_iff_zip.mpr ⟨hlength, fun {d k} hmem => ?_⟩
  obtain ⟨hpacket, hin⟩ := readBack_packet hsequence
    (List.mem_range.mp (List.mem_of_mem_filter (List.of_mem_zip hmem).2))
  constructor
  · rw [hzip hmem]
    exact hdecodes _ hin
  · rw [hzip hmem, Proto.packetAt_encode, hpacket]

/-- **A run with lost sends.** Sends of an OLV1 run may fail, but not 2^31 - 1 in a row. Then
the backend accepts every packet that the socket took, its satellite is that of the last
of them, and each object is as the last of them that has it tells. -/
theorem lossy_run (cfg : SimConfig) (hprotocol : cfg.protocol = .kOlv1) (source : Source)
    (hsound : ∀ frame ∈ source.sent cfg, SoundFrame frame) {takes : ℕ → Bool}
    (htakes : Reaches takes) (marshal : OutPdu → List Byte) (startEpoch : F64) (expiry : Int)
    (ds : List Datagram)
    (hds : ds.map Datagram.bytes = (runLoop marshal cfg startEpoch takes source).sender.wire) :
    let packets := (taken takes (framePackets (toSize cfg.chunk) 0 (source.sent cfg))).map
      StatePacket.capped
    let s := olv1InputSource.start expiry
    let final := (olv1InputSource.run s (ds.map .datagram)).store
    (∀ o ∈ olv1InputSource.observe s (ds.map .datagram), o = .outcome .accepted) ∧
    final.satellite = packets.getLast?.map StateStore.packetSatellite ∧
    rowsOf final = overwrite (fun _ => none) (packets.flatMap StatePacket.objects) := by
  intro packets s final
  obtain ⟨built, hran⟩ := runLoop_ran marshal cfg startEpoch takes source
  have hbuilt : built = (framePackets (toSize cfg.chunk) 0 (source.sent cfg)).map Proto.encode := by
    have hall := hran.datagrams
    simp only [Sender.datagrams, hprotocol, framePackets, List.map_nil, List.append_nil] at hall
    exact hall.symm
  rw [hran.counted.wire, hbuilt, taken_map, taken_eq _ {}] at hds
  rw [show packets = _ from congrArg (List.map StatePacket.capped) (taken_eq _ {})]
  generalize hpkts : framePackets (toSize cfg.chunk) 0 (source.sent cfg) = pkts at hds
  have hsequence : ∀ k pkt, pkts[k]? = some pkt → pkt.sequence = Serial.stamp 0 k :=
    fun k pkt hpkt => sequence_framePackets (hpkts ▸ hpkt)
  have hheld := holds_of_bytes (hpkts ▸ framePackets_decodes hsound) hsequence hds
  have hchain : ((none : Option ℕ).toList ++ (List.range' 0 pkts.length).filter takes).IsChain
      Next := by
    refine taken_range' htakes pkts.length ?_
    intro t ht
    cases ht
  rw [← List.range_eq_range'] at hchain
  have hempty : StateStore.Follows (readBack pkts) { objectExpiry := expiry } none := by
    refine ⟨rfl, ?_, rfl⟩
    intro t ht
    cases ht
  obtain ⟨hall, hfollows, hrows⟩ := run_chain hheld hempty hchain
  refine ⟨hall, ?_, ?_⟩
  · refine hfollows.satellite.trans ?_
    rw [Option.or_none, List.getLast?_map, List.getLast?_map, Option.map_map,
      Option.map_map]
    refine Option.map_congr fun k hk => ?_
    have hlt := List.mem_range.mp (List.mem_of_mem_filter (List.mem_of_getLast? hk))
    exact congrArg StateStore.packetSatellite (readBack_packet hsequence hlt).1
  · refine hrows.trans ?_
    rw [List.flatMap_map, List.flatMap_map]
    rfl

/-- Every second send fails. -/
def everySecond (k : ℕ) : Bool := k % 2 = 1

theorem everySecond_reaches : Reaches everySecond := by
  intro k
  rcases Nat.mod_two_eq_zero_or_one k with heven | hodd
  · exact ⟨1, by decide, decide_eq_true (by omega)⟩
  · exact ⟨0, by decide, decide_eq_true hodd⟩

/-- Two rounds of the sample frame, in packets of two objects. -/
def sampleSource : Source := .csv [sampleFrame] (List.cons_ne_nil _ _) 2

def sampleConfig : SimConfig := { mode := .kCsv, chunk := 2, loop := true }

/-- What the socket takes of them. -/
def sampleDatagrams : List Datagram :=
  (runLoop (fun _ => []) sampleConfig ⟨0⟩ everySecond sampleSource).sender.wire.map
    fun bytes => { bytes }

theorem lossy_run_sample :
    (olv1InputSource.run (olv1InputSource.start 15) (sampleDatagrams.map .datagram)).store.satellite =
      ((taken everySecond (framePackets 2 0 (sampleSource.sent sampleConfig))).map
        StatePacket.capped).getLast?.map StateStore.packetSatellite :=
  (lossy_run sampleConfig rfl sampleSource (by decide +kernel) everySecond_reaches
    (fun _ => []) ⟨0⟩ 15 sampleDatagrams (by
      rw [sampleDatagrams, List.map_map]
      exact List.map_id _)).2.1

end Olv.Sim
