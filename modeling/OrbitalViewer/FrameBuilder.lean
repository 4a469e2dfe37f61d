import OrbitalViewer.Lib.Chunks
import OrbitalViewer.Lib.HighWater
import OrbitalViewer.DisInputSource
import OrbitalViewer.ProtocolRoundTrip
import OrbitalViewer.StateStoreHistory

/-!
# The simulator's OLV1 packets

`buildPackets` of `tools/simulator/src/frame_builder.cpp` cuts a frame into
packets of consecutive sequences. Fed to the OLV1 source they are all accepted
and amount to one bulk update of the object table (`delivery_lossless`).
-/

namespace Olv.Sim
open Wire (Byte)
open Ieee (F64)
open Proto (ObjectRecord StatePacket SoundPacket SoundRecord)
open StateStore (table)

structure Frame where
  t : F64 := ⟨0⟩
  sat : ObjectRecord := {}
  objects : List ObjectRecord := []

def clampedChunk (chunk : Nat) : Chunks.Size :=
  Chunks.clamp Proto.kMaxObjectsPerPacket.toNat (by decide) chunk

theorem clampedChunk_eq (chunk : Nat) : (clampedChunk chunk).1 = max 1 (min chunk 128) :=
  Chunks.clamp_eq _ _ chunk

def objectTotal (frame : Frame) : U16 :=
  BitVec.ofNat 16 (min frame.objects.length Proto.kMaxTrackedObjects.toNat)

def packetFor (frame : Frame) (sequence : U32) (objects : List ObjectRecord) : StatePacket where
  sequence
  satId := frame.sat.id
  satPx := frame.sat.px
  satPy := frame.sat.py
  satPz := frame.sat.pz
  satVx := frame.sat.vx
  satVy := frame.sat.vy
  satVz := frame.sat.vz
  objectTotal := objectTotal frame
  objects

/-- The `do … while (i < total)` loop. -/
def packetLoop (frame : Frame) (chunk : Chunks.Size) (i : Nat) (seq : U32) : List (List Byte) × U32 :=
  let total := frame.objects.length
  let stop := min (i + chunk.1) total
  let packet := Proto.encode (packetFor frame seq ((frame.objects.drop i).take (stop - i)))
  if stop < total then
    let rest := packetLoop frame chunk stop (seq + 1)
    (packet :: rest.1, rest.2)
  else ([packet], seq + 1)
termination_by frame.objects.length - i
decreasing_by
  have := chunk.2
  omega

/-- The datagrams, and `seq` after them. -/
def buildPackets (frame : Frame) (chunk : Nat) (seq : U32) : List (List Byte) × U32 :=
  packetLoop frame (clampedChunk chunk) 0 seq

/-! ## The packets chunk by chunk -/

/-- One packet a chunk, from `seq` on. -/
def packetsOf (frame : Frame) (seq : U32) : List (List ObjectRecord) → List StatePacket
  | [] => []
  | objects :: rest => packetFor frame seq objects :: packetsOf frame (seq + 1) rest

def chunksOf (frame : Frame) (chunk : Nat) : List (List ObjectRecord) :=
  Chunks.chunks (clampedChunk chunk) frame.objects

theorem stamp_succ (seq : U32) (k : Nat) : Serial.stamp (seq + 1) k = Serial.stamp seq (k + 1) := by
  rw [Nat.add_comm]
  exact Serial.stamp_add seq 1 k

theorem packetLoop_eq (frame : Frame) (chunk : Chunks.Size) (i : Nat) (seq : U32) :
    packetLoop frame chunk i seq =
      ((packetsOf frame seq (Chunks.chunks chunk (frame.objects.drop i))).map Proto.encode,
        Serial.stamp seq (Chunks.chunks chunk (frame.objects.drop i)).length) := by
  fun_induction packetLoop frame chunk i seq with
  | case1 i seq total stop packet hmore rest ih =>
    have hstop : stop = i + chunk.1 := by omega
    have hchunks : Chunks.chunks chunk (frame.objects.drop i) = (frame.objects.drop i).take chunk.1 ::
        Chunks.chunks chunk (frame.objects.drop stop) := by
      rw [Chunks.chunks, if_neg (by rw [List.length_drop]; omega), List.drop_drop, hstop]
    have htake : stop - i = chunk.1 := by omega
    have hrest : rest = _ := ih
    rw [hchunks, hrest, stamp_succ]
    simp only [packet, htake, packetsOf, List.map_cons, List.length_cons]
  | case2 i seq total stop packet hlast =>
    have hfits : (frame.objects.drop i).length ≤ chunk.1 := by
      rw [List.length_drop]
      omega
    have hchunks : Chunks.chunks chunk (frame.objects.drop i) = [frame.objects.drop i] :=
      Chunks.chunks_of_le hfits
    have htake : (frame.objects.drop i).take (stop - i) = frame.objects.drop i :=
      List.take_of_length_le (by rw [List.length_drop]; omega)
    rw [hchunks]
    simp only [packet, htake, packetsOf, List.map_cons, List.map_nil, List.length_singleton]
    rfl

theorem buildPackets_eq (frame : Frame) (chunk : Nat) (seq : U32) :
    buildPackets frame chunk seq = ((packetsOf frame seq (chunksOf frame chunk)).map Proto.encode,
      Serial.stamp seq (chunksOf frame chunk).length) := by
  rw [buildPackets, packetLoop_eq, List.drop_zero]
  rfl

theorem length_packetsOf (frame : Frame) (seq : U32) (cs : List (List ObjectRecord)) :
    (packetsOf frame seq cs).length = cs.length := by
  induction cs generalizing seq with
  | nil => rfl
  | cons objects cs ih => rw [packetsOf, List.length_cons, List.length_cons, ih]

/-- The `k`-th packet. -/
theorem getElem?_packetsOf (frame : Frame) (seq : U32) (cs : List (List ObjectRecord)) (k : Nat) :
    (packetsOf frame seq cs)[k]? = cs[k]?.map fun objects =>
      packetFor frame (Serial.stamp seq k) objects := by
  induction cs generalizing seq k with
  | nil => rfl
  | cons objects cs ih =>
    cases k with
    | zero => simp [packetsOf]
    | succ k =>
      rw [packetsOf, List.getElem?_cons_succ, List.getElem?_cons_succ, ih, stamp_succ]

/-! ## Delivery -/

/-- Every float that is sent finite, every position in range. -/
structure SoundFrame (frame : Frame) : Prop where
  px : Proto.Coordinate frame.sat.px
  py : Proto.Coordinate frame.sat.py
  pz : Proto.Coordinate frame.sat.pz
  vx : frame.sat.vx.datum.isFinite = true
  vy : frame.sat.vy.datum.isFinite = true
  vz : frame.sat.vz.datum.isFinite = true
  objects : ∀ r ∈ frame.objects, SoundRecord r

instance (frame : Frame) : Decidable (SoundFrame frame) :=
  decidable_of_iff ((Proto.Coordinate frame.sat.px ∧ Proto.Coordinate frame.sat.py ∧
      Proto.Coordinate frame.sat.pz) ∧ (frame.sat.vx.datum.isFinite = true ∧
      frame.sat.vy.datum.isFinite = true ∧ frame.sat.vz.datum.isFinite = true) ∧
      ∀ r ∈ frame.objects, SoundRecord r)
    ⟨fun ⟨⟨px, py, pz⟩, ⟨vx, vy, vz⟩, objects⟩ => ⟨px, py, pz, vx, vy, vz, objects⟩,
      fun h => ⟨⟨h.px, h.py, h.pz⟩, ⟨h.vx, h.vy, h.vz⟩, h.objects⟩⟩

/-- The store is empty, or the last sequence it accepted is the one before `seq`. -/
def Precedes (store : StateStore) (seq : U32) : Prop :=
  store.haveSeq = true → store.lastSeq = seq - 1

/-- The rows of the object table. -/
def rowsOf (store : StateStore) (id : U32) : Option SnapshotObject :=
  (table store.objects id).map StoredObject.obj

/-- The rows overwritten by records in list order, each at its id. -/
def overwrite (rows : U32 → Option SnapshotObject) (records : List ObjectRecord) :
    U32 → Option SnapshotObject :=
  records.foldl (fun rows r => Function.update rows r.id (some (StateStore.recordRow r))) rows

/-- The satellite of the frame, as sent with `seq`. -/
def satelliteOf (frame : Frame) (seq : U32) : SatelliteState where
  id := frame.sat.id
  seq
  px := frame.sat.px
  py := frame.sat.py
  pz := frame.sat.pz
  vx := frame.sat.vx
  vy := frame.sat.vy
  vz := frame.sat.vz

theorem Precedes.fresh {store : StateStore} {seq : U32} (h : Precedes store seq) :
    store.staleSequence seq = false := by
  have hnext := StateStore.fresh_next h
  rwa [show seq - 1 + 1 = seq from sub_add_cancel seq 1] at hnext

theorem packetFor_decodes {frame : Frame} (hf : SoundFrame frame) (seq : U32)
    {objects : List ObjectRecord} (hsub : ∀ r ∈ objects, r ∈ frame.objects)
    (hlen : objects.length ≤ 128) (hle : objects.length ≤ frame.objects.length) :
    Proto.Documented (Proto.encode (packetFor frame seq objects)) ∧
    Proto.packetAt (Proto.encode (packetFor frame seq objects)) =
      packetFor frame seq (objects.map ObjectRecord.capped) := by
  have htotal : (objectTotal frame).toNat = min frame.objects.length 5000 := by
    rw [objectTotal, BitVec.toNat_ofNat, show Proto.kMaxTrackedObjects.toNat = 5000 from rfl]
    omega
  have hsound : SoundPacket (packetFor frame seq objects) :=
    ⟨⟨hf.px, hf.py, hf.pz, hf.vx, hf.vy, hf.vz⟩, fun r hr => hf.objects r (hsub r hr)⟩
  refine ⟨Proto.documented_encode hsound ?_, ?_⟩
  · change min objects.length 128 ≤ min (objectTotal frame).toNat 5000
    omega
  · have hcap : ¬ objectTotal frame > 5000 := by
      rw [gt_iff_lt, BitVec.lt_def, htotal]
      simp
    rw [Proto.packetAt_encode]
    simp only [Proto.StatePacket.capped, packetFor, hcap, if_false, List.take_of_length_le hlen]

theorem rowsOf_merge (mono : Int) (records : List ObjectRecord)
    (objects : StateStore.Objects) :
    (fun id => (table (StateStore.mergeObjects mono records objects) id).map StoredObject.obj) =
      overwrite (fun id => (table objects id).map StoredObject.obj) records := by
  induction records generalizing objects with
  | nil => rfl
  | cons r records ih =>
    have hone : (fun id => (table (objects.insert r.id ⟨StateStore.objectOf r, mono⟩) id).map
        StoredObject.obj) = Function.update (fun id => (table objects id).map StoredObject.obj) r.id
          (some (StateStore.recordRow r)) := by
      rw [StateStore.table_insert, StateStore.objectOf_eq]
      funext id
      by_cases hid : id = r.id
      · subst hid
        simp
      · simp [hid]
    have hrest := ih (objects.insert r.id ⟨StateStore.objectOf r, mono⟩)
    rw [hone] at hrest
    exact hrest

theorem overwrite_append (rows : U32 → Option SnapshotObject) (rs rs' : List ObjectRecord) :
    overwrite rows (rs ++ rs') = overwrite (overwrite rows rs) rs' := List.foldl_append

/-- Every record leaves a row, and no row goes. -/
theorem overwrite_none_iff (rows : U32 → Option SnapshotObject) (records : List ObjectRecord)
    (id : U32) :
    overwrite rows records id = none ↔ rows id = none ∧ ∀ r ∈ records, r.id ≠ id := by
  induction records generalizing rows with
  | nil => simp [overwrite]
  | cons r records ih =>
    have hrest := ih (Function.update rows r.id (some (StateStore.recordRow r)))
    rw [List.forall_mem_cons]
    by_cases hid : r.id = id
    · simp only [hid, Function.update_self] at hrest
      simp only [hid, ne_eq, not_true_eq_false, false_and, and_false, iff_false]
      intro hnone
      cases (hrest.mp (hid ▸ hnone)).1
    · rw [Function.update_of_ne (Ne.symm hid)] at hrest
      refine hrest.trans ?_
      simp [hid]

/-- One packet of the frame at the OLV1 source. -/
theorem step_packet {frame : Frame} (hf : SoundFrame frame) {seq : U32}
    {objects : List ObjectRecord} (hsub : ∀ r ∈ objects, r ∈ frame.objects)
    (hlen : objects.length ≤ 128) (hle : objects.length ≤ frame.objects.length)
    {store : StateStore} (h : Precedes store seq) {d : Datagram}
    (hd : d.bytes = Proto.encode (packetFor frame seq objects)) :
    let r := olv1InputSource.step (.datagram d) ⟨(), store⟩
    r.1 = .outcome .accepted ∧ Precedes r.2.store (seq + 1) ∧
    r.2.store.satellite = some (satelliteOf frame seq) ∧
    rowsOf r.2.store = overwrite (rowsOf store) (objects.map ObjectRecord.capped) := by
  obtain ⟨hdocumented, hpacket⟩ := packetFor_decodes hf seq hsub hlen hle
  rw [← hd] at hdocumented hpacket
  have hv := (Proto.verdict_iff d.bytes).mpr hdocumented
  rcases Olv1InputSource.handleDatagram_cases d with ⟨hbad, _⟩ | ⟨_, heq⟩
  · exact absurd hv hbad
  obtain ⟨log, hs⟩ := heq store
  have hfresh : (store.countReceived d.bytes.length).staleSequence
      (Proto.packetAt d.bytes).sequence = false := by
    rw [hpacket]
    exact h.fresh
  have hstep : olv1InputSource.step (.datagram d) ⟨(), store⟩ =
      (.outcome (Olv1InputSource.handleDatagram d store).outcome,
        ⟨(), (Olv1InputSource.handleDatagram d store).store⟩) := rfl
  dsimp only
  rw [hstep, hs]
  dsimp only
  rw [StateStore.apply_fresh hfresh, hpacket]
  refine ⟨rfl, fun _ => (BitVec.add_sub_cancel seq 1).symm, rfl, ?_⟩
  exact rowsOf_merge d.mono (objects.map ObjectRecord.capped) store.objects

/-- Chunks of the frame's objects, each no longer than a packet. -/
def Cut (frame : Frame) (cs : List (List ObjectRecord)) : Prop :=
  ∀ objects ∈ cs, objects.length ≤ 128 ∧ objects.length ≤ frame.objects.length ∧
    ∀ r ∈ objects, r ∈ frame.objects

theorem cut_chunksOf (frame : Frame) (chunk : Nat) : Cut frame (chunksOf frame chunk) := by
  intro objects hobjects
  obtain ⟨hsize, hlen⟩ := Chunks.length_le_of_mem hobjects
  have hclamped : (clampedChunk chunk).1 ≤ 128 := by
    rw [clampedChunk_eq]
    omega
  refine ⟨hsize.trans hclamped, hlen, fun r hr => ?_⟩
  have hmem : r ∈ (chunksOf frame chunk).flatten := List.mem_flatten_of_mem hobjects hr
  rwa [chunksOf, Chunks.flatten_chunks] at hmem

/-- The packets of the chunks at the OLV1 source, in order. -/
theorem run_packets {frame : Frame} (hf : SoundFrame frame) {cs : List (List ObjectRecord)}
    (hcut : Cut frame cs) {seq : U32} {store : StateStore} (h : Precedes store seq)
    {ds : List Datagram} (hds : ds.map Datagram.bytes = (packetsOf frame seq cs).map Proto.encode) :
    let s : olv1InputSource.State := ⟨(), store⟩
    let final := (olv1InputSource.run s (ds.map .datagram)).store
    (∀ o ∈ olv1InputSource.observe s (ds.map .datagram), o = .outcome .accepted) ∧
    Precedes final (Serial.stamp seq cs.length) ∧
    (∀ n, cs.length = n + 1 → final.satellite = some (satelliteOf frame (Serial.stamp seq n))) ∧
    rowsOf final = overwrite (rowsOf store) (cs.flatten.map ObjectRecord.capped) := by
  induction cs generalizing seq store ds with
  | nil =>
    obtain rfl := List.map_eq_nil_iff.mp hds
    refine ⟨fun o ho => absurd ho List.not_mem_nil, ?_, (fun n hn => nomatch hn), rfl⟩
    rw [List.length_nil, Serial.stamp_zero]
    exact h
  | cons objects cs ih =>
    cases ds with
    | nil => cases hds
    | cons d ds =>
      rw [packetsOf, List.map_cons, List.map_cons, List.cons.injEq] at hds
      obtain ⟨hlen, hle, hsub⟩ := hcut objects List.mem_cons_self
      obtain ⟨houtcome, hnext, hsat, hrows⟩ := step_packet hf hsub hlen hle h hds.1
      obtain ⟨hall, hlast, hfinal, htable⟩ :=
        ih (fun c hc => hcut c (List.mem_cons_of_mem _ hc)) hnext hds.2
      refine ⟨?_, ?_, ?_, ?_⟩
      · intro o ho
        rcases List.mem_cons.mp ho with rfl | ho
        · exact houtcome
        · exact hall o ho
      · rw [List.length_cons, ← stamp_succ]
        exact hlast
      · intro n hn
        cases n with
        | zero =>
          obtain rfl := List.length_eq_zero_iff.mp (Nat.succ.inj hn)
          obtain rfl := List.map_eq_nil_iff.mp hds.2
          rw [Serial.stamp_zero]
          exact hsat
        | succ n =>
          rw [← stamp_succ]
          exact hfinal n (Nat.succ.inj hn)
      · rw [List.flatten_cons, List.map_append, overwrite_append, ← hrows]
        exact htable

/-- **Delivery.** The packets of a sound frame are `max 1 ⌈n / c⌉` in number
and carry consecutive sequences. In order, at a store that is empty or one
sequence behind, every one is accepted; the satellite is then the frame's, and
the object table is the one before, overwritten by the frame's objects. -/
theorem delivery_lossless (frame : Frame) (hf : SoundFrame frame) (chunk : Nat) (seq : U32)
    (store : StateStore) (h : Precedes store seq) (ds : List Datagram)
    (hds : ds.map Datagram.bytes = (buildPackets frame chunk seq).1) :
    let count := max 1 (frame.objects.length ⌈/⌉ max 1 (min chunk 128))
    let s : olv1InputSource.State := ⟨(), store⟩
    let final := (olv1InputSource.run s (ds.map .datagram)).store
    ds.length = count ∧
    (buildPackets frame chunk seq).2 = seq + BitVec.ofNat 32 count ∧
    (∀ k d, ds[k]? = some d → ∃ packet, Proto.decode d.bytes {} = some (.kNone, packet) ∧
      packet.sequence = seq + BitVec.ofNat 32 k) ∧
    (∀ o ∈ olv1InputSource.observe s (ds.map .datagram), o = .outcome .accepted) ∧
    final.satellite = some (satelliteOf frame (seq + BitVec.ofNat 32 (count - 1))) ∧
    rowsOf final = overwrite (rowsOf store) (frame.objects.map ObjectRecord.capped) := by
  intro count s final
  have hcut := cut_chunksOf frame chunk
  have hcount : (chunksOf frame chunk).length = count := by
    rw [chunksOf, Chunks.length_chunks, clampedChunk_eq]
  have hpos : 0 < count := Nat.lt_of_lt_of_le Nat.zero_lt_one (le_max_left _ _)
  have hds : ds.map Datagram.bytes =
      (packetsOf frame seq (chunksOf frame chunk)).map Proto.encode := by
    rw [hds, buildPackets_eq]
  obtain ⟨hall, _, hsat, hrows⟩ := run_packets hf hcut h hds
  refine ⟨?_, ?_, fun k d hk => ?_, hall, hsat (count - 1) (by omega), ?_⟩
  · rw [← hcount, ← length_packetsOf frame seq, ← List.length_map Proto.encode, ← hds,
      List.length_map]
  · rw [buildPackets_eq, hcount]
    rfl
  · have hbytes : ((packetsOf frame seq (chunksOf frame chunk)).map Proto.encode)[k]? =
        some d.bytes := by
      rw [← hds, List.getElem?_map, hk]
      rfl
    rw [List.getElem?_map, getElem?_packetsOf] at hbytes
    obtain ⟨packet, hpacket, hd⟩ := Option.map_eq_some_iff.mp hbytes
    obtain ⟨objects, hobjects, rfl⟩ := Option.map_eq_some_iff.mp hpacket
    obtain ⟨hlen, hle, hsub⟩ := hcut objects (List.mem_of_getElem? hobjects)
    obtain ⟨hdocumented, hdecoded⟩ := packetFor_decodes hf (Serial.stamp seq k) hsub hlen hle
    have hv := (Proto.verdict_iff _).mpr hdocumented
    rw [← hd, Proto.decode_eq, hv, if_pos rfl, hdecoded]
    exact ⟨_, rfl, rfl⟩
  · rw [chunksOf, Chunks.flatten_chunks] at hrows
    exact hrows

/-- Three objects, the first and the last with the same id, in packets of two. -/
def sampleFrame : Frame where
  sat := { id := 1 }
  objects := [{ id := 9, type := 1 }, { id := 8, type := 7, confidence := 200 },
    { id := 9, type := 2, px := ⟨0x4059000000000000⟩ }]

theorem sampleFrame_sound : SoundFrame sampleFrame := by decide +kernel

/-- What the two packets leave of it: the sequence has wrapped between them, the
second record of object 9 has replaced the first, a type the protocol does not know is
sent as unknown and a confidence beyond 100 as 100. -/
theorem delivery_lossless_sample :
    let datagrams : List Datagram := (buildPackets sampleFrame 2 0xFFFFFFFF).1.map fun bytes => { bytes }
    let final := (olv1InputSource.run ⟨(), {}⟩ (datagrams.map .datagram)).store
    datagrams.length = 2 ∧ (buildPackets sampleFrame 2 0xFFFFFFFF).2 = 1 ∧
    final.satellite = some { id := 1 } ∧
    rowsOf final 9 = some { id := 9, type := 2, px := ⟨0x4059000000000000⟩ } ∧
    rowsOf final 8 = some { id := 8, confidence := 100 } ∧
    rowsOf final 7 = none := by
  intro datagrams final
  obtain ⟨hcount, hnext, _, _, hsat, hrows⟩ :=
    delivery_lossless sampleFrame sampleFrame_sound 2 0xFFFFFFFF {} (by intro h; cases h) datagrams
      (by rw [List.map_map]; exact List.map_id _)
  have hcount' : max 1 (sampleFrame.objects.length ⌈/⌉ max 1 (min 2 128)) = 2 := by decide
  rw [hcount'] at hcount hsat
  refine ⟨hcount, hnext, hsat, ?_, ?_, ?_⟩
  · exact (congrFun hrows 9).trans (by decide)
  · exact (congrFun hrows 8).trans (by decide)
  · exact (congrFun hrows 7).trans (by decide)

end Olv.Sim
