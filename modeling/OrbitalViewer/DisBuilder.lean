import OrbitalViewer.EntityFold
import OrbitalViewer.FrameBuilder
import OrbitalViewer.SimConfig
import OrbitalViewer.Lib.IeeeDivision

/-!
# The simulator's DIS packets

`buildDisPdus` of `tools/simulator/src/dis_builder.cpp`, and the ids that the
generator of `tools/simulator/src/generator.cpp` gives its objects. The objects of a
frame go out under the application of their upper half, so where a run has one of
these no two of them share a folded id and the source never warns of two
(`fold_collisions`). The satellite has an application of its own and may share the
folded id of an object (`satellite_twin`).
-/

namespace Olv.Sim
open Wire (Byte)
open Ieee (F32 F64)
open Proto (ObjectRecord ObjectType)
open DisInputSource (EntityStatePdu EntityId readEntityStatePdu)

/-! ## PDUs -/

structure DisEmitConfig where
  exerciseId : U8 := 1
  site : U16 := 1
  satSite : U16 := 1
  satApplication : U16 := 1
  satEntity : U16 := 1

def mapEntityType (olvType : U8) : U8 × U8 :=
  if olvType = ObjectType.kSatellite.value then (1, 5)
  else if olvType = ObjectType.kGroundHot.value then (1, 1)
  else if olvType = ObjectType.kComet.value then (2, 0)
  else if olvType = ObjectType.kDebris.value then (0, 5)
  else (0, 0)

/-- What `marshalOne` sets of a PDU. -/
structure OutPdu where
  exerciseId : U8
  timestamp : U32
  pdu : EntityStatePdu

def kTicksPerSecond : F64 := (F64.ofNat 2147483648).div (F64.ofNat 3600)

/-- The time stamp of a finite time. -/
def timestampOf (tSeconds : F64) : U32 :=
  let t := max 0 tSeconds.datum.toRat
  let hourS := F64.ofDatum (.fin false (t - 3600 * ⌊t / 3600⌋))
  let ticks : U32 := BitVec.ofNat 32 ⌊(hourS.mul kTicksPerSecond).datum.toRat⌋₊ &&& 0x7FFFFFFF
  ticks <<< 1

section Marshal
variable (marshal : OutPdu → List Byte)

def marshalOne (site app entity : U16) (kind domain : U8) (rec : ObjectRecord) (exerciseId : U8)
    (timestamp : U32) : List Byte :=
  marshal {
    exerciseId, timestamp
    pdu := {
      site, application := app, entity, kind, domain
      x := rec.px, y := rec.py, z := rec.pz
      vx := rec.vx, vy := rec.vy, vz := rec.vz } }

def buildDisPdus (frame : Frame) (cfg : DisEmitConfig) (tSeconds : F64) : List (List Byte) :=
  let timestamp := timestampOf tSeconds
  marshalOne marshal cfg.satSite cfg.satApplication cfg.satEntity 1 5 frame.sat cfg.exerciseId
      timestamp ::
    frame.objects.map fun (rec : ObjectRecord) =>
      marshalOne marshal cfg.site ((rec.id >>> 16).setWidth 16) ((rec.id &&& 0xFFFF).setWidth 16)
        (mapEntityType rec.type).1 (mapEntityType rec.type).2 rec cfg.exerciseId timestamp

/-- What a run sends, frame after frame. -/
def sentInDis (cfg : DisEmitConfig) (rateHz : F64) (frames : List Frame) : List (List Byte) :=
  frames.zipIdx.flatMap fun e => buildDisPdus marshal e.1 cfg ((F64.ofNat e.2).div rateHz)

end Marshal

/-! ## Generated frames -/

structure Motion where
  px : F64
  py : F64
  pz : F64
  vx : F32
  vy : F32
  vz : F32

/-- The parameters of an object, with where they take it. -/
structure ObjectParams where
  id : U32
  type : U8
  confidence : U8
  intensity : F32
  hasVelocity : Bool
  motion : F64 → Motion

def ObjectParams.record (p : ObjectParams) (t : F64) : ObjectRecord where
  id := p.id
  type := p.type
  flags := if p.hasVelocity then Proto.kFlagHasVelocity else 0
  confidence := p.confidence
  px := (p.motion t).px
  py := (p.motion t).py
  pz := (p.motion t).pz
  vx := (p.motion t).vx
  vy := (p.motion t).vy
  vz := (p.motion t).vz
  intensity := p.intensity

/-- The objects of a generator, by what is drawn for each. -/
def generatedObjects (draw : ℕ → ObjectParams) (objectCount : ℕ) : List ObjectParams :=
  (List.range objectCount).map fun i => { draw i with id := BitVec.ofNat 32 (i + 1) }

def frameAt (sat : F64 → Motion) (objects : List ObjectParams) (t : F64) : Frame where
  t := t
  sat := {
    id := 1
    px := (sat t).px, py := (sat t).py, pz := (sat t).pz
    vx := (sat t).vx, vy := (sat t).vy, vz := (sat t).vz }
  objects := objects.map fun p => p.record t

/-! ## Ids on the wire -/

/-- The library reads back the EntityID that it wrote. -/
def KeepsIds (marshal : OutPdu → List Byte)
    (unmarshal : List Byte → Option EntityStatePdu) : Prop :=
  ∀ out pdu, unmarshal (marshal out) = some pdu → pdu.id = out.pdu.id

/-- The ids of all objects have one upper half. -/
def OneApplication (frames : List Frame) : Prop :=
  ∃ app : U16, ∀ frame ∈ frames, ∀ rec ∈ frame.objects, (rec.id >>> 16).setWidth 16 = app

def DisEmitConfig.satellite (cfg : DisEmitConfig) : EntityId :=
  ⟨cfg.satSite, cfg.satApplication, cfg.satEntity⟩

/-- The EntityID of an object: its id in two halves. -/
def DisEmitConfig.object (cfg : DisEmitConfig) (rec : ObjectRecord) : EntityId :=
  ⟨cfg.site, (rec.id >>> 16).setWidth 16, (rec.id &&& 0xFFFF).setWidth 16⟩

/-- The halves give the id back. -/
theorem id_of_object {cfg : DisEmitConfig} {rec rec' : ObjectRecord}
    (h : cfg.object rec = cfg.object rec') : rec.id = rec'.id := by
  obtain ⟨_, happ, hentity⟩ := EntityId.mk.inj h
  have hhigh := congrArg BitVec.toNat happ
  have hlow := congrArg BitVec.toNat hentity
  simp only [BitVec.toNat_setWidth, BitVec.toNat_ushiftRight, Nat.shiftRight_eq_div_pow,
    BitVec.toNat_and] at hhigh hlow
  have hmask (n : ℕ) : n &&& BitVec.toNat (0xFFFF : U32) = n % 2 ^ 16 :=
    Nat.and_two_pow_sub_one_eq_mod n 16
  rw [hmask, hmask] at hlow
  apply BitVec.eq_of_toNat_eq
  have := rec.id.isLt
  have := rec'.id.isLt
  omega

section Sent
variable {marshal : OutPdu → List Byte} {emit : DisEmitConfig} {rateHz : F64} {frames : List Frame}

/-- What is sent is of the satellite or of an object. -/
theorem sentInDis_cases {bytes : List Byte} (h : bytes ∈ sentInDis marshal emit rateHz frames) :
    ∃ out, bytes = marshal out ∧ (out.pdu.id = emit.satellite ∨
      ∃ frame ∈ frames, ∃ rec ∈ frame.objects, out.pdu.id = emit.object rec) := by
  obtain ⟨e, he, hbytes⟩ := List.mem_flatMap.mp h
  have hframe : e.1 ∈ frames := by
    obtain ⟨frame, i⟩ := e
    exact List.mem_of_getElem? (List.mem_zipIdx_iff_getElem?.mp he)
  rcases List.mem_cons.mp hbytes with rfl | hobject
  · exact ⟨_, rfl, .inl rfl⟩
  · obtain ⟨rec, hrec, rfl⟩ := List.mem_map.mp hobject
    exact ⟨_, rfl, .inr ⟨e.1, hframe, rec, hrec, rfl⟩⟩

/-- The datagrams of a run: some of what is sent, in whichever order. -/
def Delivered (sent : List (List Byte)) (events : List Event) : Prop :=
  ∀ d ∈ events.filterMap Event.datagram?, d.bytes ∈ sent

/-- Claimants of a run are its objects, but for the simulator's satellite. -/
theorem claimant_sent {unmarshal : List Byte → Option EntityStatePdu}
    (hkeeps : KeepsIds marshal unmarshal) {cfg : DisInputSource.Config} {events : List Event}
    (hdelivered : Delivered (sentInDis marshal emit rateHz frames) events) {id : U32} {e : EntityId}
    (h : e ∈ DisInputSource.claimants cfg id (DisInputSource.acceptedOf unmarshal cfg events)) :
    e.fold = id ∧ e ≠ cfg.satellite ∧
      (e = emit.satellite ∨ ∃ frame ∈ frames, ∃ rec ∈ frame.objects, e = emit.object rec) := by
  obtain ⟨hfold, hsat, pdu, rfl, d, hd, hread⟩ := DisInputSource.claimant_cases h
  obtain ⟨out, hbytes, hout⟩ := sentInDis_cases (hdelivered d hd)
  have hid : pdu.id = out.pdu.id := hkeeps out pdu (hbytes ▸ hread)
  refine ⟨hfold, hsat, ?_⟩
  rw [hid]
  exact hout

/-- Objects of one application fold apart. -/
theorem object_of_fold (hone : OneApplication frames) {frame frame' : Frame} (hframe : frame ∈ frames)
    (hframe' : frame' ∈ frames) {rec rec' : ObjectRecord} (hrec : rec ∈ frame.objects)
    (hrec' : rec' ∈ frame'.objects) (hfold : (emit.object rec).fold = (emit.object rec').fold) :
    emit.object rec = emit.object rec' := by
  obtain ⟨app, happ⟩ := hone
  exact EntityId.eq_of_fold rfl
    ((happ frame hframe rec hrec).trans (happ frame' hframe' rec' hrec').symm) hfold

end Sent

/-- Generated objects count up from 1. -/
theorem generated_oneApplication (draw : ℕ → ObjectParams) (sat : F64 → Motion) {count : ℕ}
    (hcount : validGenerateCount count = true) (times : List F64) :
    OneApplication (times.map (frameAt sat (generatedObjects draw count))) := by
  refine ⟨0, fun frame hframe rec hrec => ?_⟩
  obtain ⟨t, _, rfl⟩ := List.mem_map.mp hframe
  obtain ⟨p, hp, rfl⟩ := List.mem_map.mp hrec
  obtain ⟨i, hi, rfl⟩ := List.mem_map.mp hp
  have hsmall : i + 1 < 2 ^ 16 := by
    have hi := List.mem_range.mp hi
    simp [validGenerateCount] at hcount
    omega
  apply BitVec.eq_of_toNat_eq
  simp only [ObjectParams.record, BitVec.toNat_setWidth, BitVec.toNat_ushiftRight,
    BitVec.toNat_ofNat]
  rw [Nat.mod_eq_of_lt (hsmall.trans (by decide)), Nat.shiftRight_eq_div_pow,
    Nat.div_eq_of_lt hsmall]
  rfl

/-! ## The wire format -/

def bigEndian {w : ℕ} (n : ℕ) (v : BitVec w) : List Byte := (Wire.leBytes n v).reverse

def pduHeader (out : OutPdu) : List Byte :=
  [6, out.exerciseId, 1, 1] ++ bigEndian 4 out.timestamp ++ [0, 144, 0, 0]

/-- Entity State PDUs of 144 bytes, without articulation parameters. -/
def writeEntityStatePdu (out : OutPdu) : List Byte :=
  pduHeader out ++ (bigEndian 2 out.pdu.site ++ (bigEndian 2 out.pdu.application ++
    (bigEndian 2 out.pdu.entity ++ ([0, 0, out.pdu.kind, out.pdu.domain] ++ List.replicate 14 0 ++
      bigEndian 4 out.pdu.vx.bits ++ bigEndian 4 out.pdu.vy.bits ++ bigEndian 4 out.pdu.vz.bits ++
      bigEndian 8 out.pdu.x.bits ++ bigEndian 8 out.pdu.y.bits ++ bigEndian 8 out.pdu.z.bits ++
      List.replicate 72 0))))

theorem length_bigEndian {w n : ℕ} (v : BitVec w) : (bigEndian n v).length = n := by
  rw [bigEndian, List.length_reverse, Wire.length_leBytes]

/-- A number that starts at `off` is read back. -/
theorem leValue_bigEndian {w n off : ℕ} (hw : w ≤ 8 * n) (v : BitVec w) {a rest : List Byte}
    (h : a.length = off) :
    Wire.leValue w (Wire.slice (a ++ (bigEndian n v ++ rest)) off n).reverse = v := by
  have hslice : Wire.slice (a ++ (bigEndian n v ++ rest)) (a.length + 0) n = bigEndian n v := by
    rw [Wire.slice_append_right, Wire.slice_append_left (by rw [length_bigEndian, Nat.zero_add])]
    have hwhole := Wire.slice_whole (bigEndian n v)
    rwa [length_bigEndian] at hwhole
  rw [← h, ← Nat.add_zero a.length, hslice, bigEndian, List.reverse_reverse,
    Wire.leValue_leBytes hw]

theorem length_pduHeader (out : OutPdu) : (pduHeader out).length = 12 := by
  simp only [pduHeader, List.length_append, length_bigEndian, List.length_cons, List.length_nil]

theorem writeEntityStatePdu_keepsIds :
    KeepsIds writeEntityStatePdu readEntityStatePdu := by
  intro out pdu h
  have hheader := length_pduHeader out
  have hsite : Wire.leValue 16 (Wire.slice (writeEntityStatePdu out) 12 2).reverse = out.pdu.site :=
    leValue_bigEndian (by decide) _ hheader
  have happ : Wire.leValue 16 (Wire.slice (writeEntityStatePdu out) 14 2).reverse =
      out.pdu.application := by
    rw [writeEntityStatePdu, ← List.append_assoc]
    exact leValue_bigEndian (by decide) _ (by rw [List.length_append, hheader, length_bigEndian])
  have hentity : Wire.leValue 16 (Wire.slice (writeEntityStatePdu out) 16 2).reverse =
      out.pdu.entity := by
    rw [writeEntityStatePdu, ← List.append_assoc, ← List.append_assoc]
    refine leValue_bigEndian (by decide) _ ?_
    rw [List.length_append, List.length_append, hheader, length_bigEndian, length_bigEndian]
  unfold readEntityStatePdu at h
  dsimp only at h
  split at h
  · cases h
  · rw [← Option.some.inj h]
    simp only [EntityStatePdu.id, EntityId.mk.injEq]
    exact ⟨hsite, happ, hentity⟩

/-! ## No collision -/

def still : ObjectParams where
  id := 0
  type := 1
  confidence := 100
  intensity := ⟨0⟩
  hasVelocity := true
  motion := fun _ => ⟨⟨0⟩, ⟨0⟩, ⟨0⟩, ⟨0⟩, ⟨0⟩, ⟨0⟩⟩

/-- Two generated frames, one second apart. -/
def stillFrames : List Frame :=
  [F64.ofNat 0, F64.ofNat 1].map (frameAt still.motion (generatedObjects (fun _ => still) 2))

def stillEvents : List Event :=
  (sentInDis writeEntityStatePdu {} (F64.ofNat 1) stillFrames).map fun bytes => .datagram { bytes }

theorem stillEvents_delivered :
    Delivered (sentInDis writeEntityStatePdu {} (F64.ofNat 1) stillFrames) stillEvents := by
  intro d hd
  obtain ⟨event, hevent, hd⟩ := List.mem_filterMap.mp hd
  obtain ⟨bytes, hbytes, rfl⟩ := List.mem_map.mp hevent
  cases hd
  exact hbytes

/-- **Entities of one application never collide.** Where the objects of a run have one
application, distinct ids of theirs fold apart, and the source warns of no two of them:
all that it can warn of is the satellite, if it was told of another one. -/
theorem fold_collisions :
    (∀ e e' : EntityId, e ≠ e' → e.site = e'.site → e.application = e'.application →
      e.fold ≠ e'.fold) ∧
    (∀ (emit : DisEmitConfig) frames, OneApplication frames →
      ∀ frame ∈ frames, ∀ rec ∈ frame.objects, ∀ frame' ∈ frames, ∀ rec' ∈ frame'.objects,
        rec.id ≠ rec'.id → (emit.object rec).fold ≠ (emit.object rec').fold) ∧
    (∀ marshal unmarshal, KeepsIds marshal unmarshal → ∀ emit rateHz frames, OneApplication frames →
      ∀ (cfg : DisInputSource.Config) (expiry : Int) (events : List Event),
        Delivered (sentInDis marshal emit rateHz frames) events → ∀ e prev,
          DisInputSource.collision e prev ∈ (disInputSource unmarshal cfg).log
            ((disInputSource unmarshal cfg).start expiry) events →
          cfg.satellite ≠ emit.satellite ∧ (e = emit.satellite ∨ prev = emit.satellite)) ∧
    ∀ (draw : ℕ → ObjectParams) (sat : F64 → Motion) (count : ℕ), validGenerateCount count = true →
      ∀ times : List F64,
        OneApplication (times.map (frameAt sat (generatedObjects draw count))) := by
  refine ⟨fun e e' hne hsite happ hfold => hne (EntityId.eq_of_fold hsite happ hfold), ?_, ?_,
    fun draw sat count hcount times => generated_oneApplication draw sat hcount times⟩
  · intro emit frames hone frame hframe rec hrec frame' hframe' rec' hrec' hne hfold
    exact hne (id_of_object (object_of_fold hone hframe hframe' hrec hrec' hfold))
  rintro marshal unmarshal hkeeps emit rateHz frames hone cfg expiry events hdelivered e prev hmem
  obtain ⟨hne, he, hprev⟩ := DisInputSource.collision_claimants hmem
  obtain ⟨_, hesat, hecases⟩ := claimant_sent hkeeps hdelivered he
  obtain ⟨hfold, hprevsat, hprevcases⟩ := claimant_sent hkeeps hdelivered hprev
  rcases hecases with rfl | ⟨frame, hframe, rec, hrec, rfl⟩
  · exact ⟨hesat.symm, .inl rfl⟩
  · rcases hprevcases with rfl | ⟨frame', hframe', rec', hrec', rfl⟩
    · exact ⟨hprevsat.symm, .inr rfl⟩
    · exact absurd (object_of_fold hone hframe hframe' hrec hrec' hfold.symm) hne

/-- No warning of a generated run. -/
theorem stillEvents_silent :
    (⟨1, 0, 1⟩ : EntityId).fold ≠ (⟨1, 0, 2⟩ : EntityId).fold ∧
    ∀ e prev, DisInputSource.collision e prev ∉
      (disInputSource readEntityStatePdu ⟨none, 1, 1, 1⟩).log
        ((disInputSource readEntityStatePdu ⟨none, 1, 1, 1⟩).start 15)
        stillEvents := by
  refine ⟨fold_collisions.1 _ _ (by decide) rfl rfl, fun e prev hmem => ?_⟩
  have hone := fold_collisions.2.2.2 (fun _ => still) still.motion 2 (by decide)
    [F64.ofNat 0, F64.ofNat 1]
  obtain ⟨hmismatch, _⟩ := fold_collisions.2.2.1 _ _ writeEntityStatePdu_keepsIds {} (F64.ofNat 1)
    stillFrames hone ⟨none, 1, 1, 1⟩ 15 stillEvents stillEvents_delivered e prev hmem
  exact hmismatch rfl

/-- One object, of application 27856. -/
def twinFrames : List Frame := [{ objects := [{ id := 0x6CD0AC08 }] }]

def twinEvents : List Event :=
  (sentInDis writeEntityStatePdu {} (F64.ofNat 1) twinFrames).map fun bytes => .datagram { bytes }

/-- **The satellite and an object may collide.** With the defaults the satellite 1:1:1 and
the object 1:27856:44040 get one id, so the snapshot lists a row under the satellite's. -/
theorem satellite_twin :
    OneApplication twinFrames ∧
    (sentInDis writeEntityStatePdu {} (F64.ofNat 1) twinFrames).map
      (fun bytes => (readEntityStatePdu bytes).map EntityStatePdu.id) =
        [some ⟨1, 1, 1⟩, some ⟨1, 27856, 44040⟩] ∧
    (⟨1, 1, 1⟩ : EntityId).fold = 1991700882 ∧ (⟨1, 27856, 44040⟩ : EntityId).fold = 1991700882 ∧
    let store := ((disInputSource readEntityStatePdu ⟨none, 1, 1, 1⟩).run
      ((disInputSource readEntityStatePdu ⟨none, 1, 1, 1⟩).start 15) twinEvents).store
    store.satellite.map SatelliteState.id = some 1991700882 ∧
    (store.snapshot 0).1.objects.map SnapshotObject.id = [1991700882] := by
  refine ⟨⟨27856, by decide +kernel⟩, by decide +kernel, by decide +kernel, by decide +kernel,
    by decide +kernel, by decide +kernel⟩

end Olv.Sim
