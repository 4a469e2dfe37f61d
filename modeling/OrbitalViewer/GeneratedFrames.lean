import OrbitalViewer.Generator

/-!
# What is generated can be sent

Every object is drawn with the values that go with its type and with parameters that keep
it within the bound of the wire, whatever the seed, so the backend decodes every frame at
any time of a run (`generated_frames`).
-/

namespace Olv.Sim
open Ieee (F32 F64)
open Ieee.F64 (Between)
open Proto (ObjectRecord ObjectType Coordinate)

/-- Coordinates that the wire takes, and a finite velocity. -/
structure SoundMotion (m : Motion) : Prop where
  px : Coordinate m.px
  py : Coordinate m.py
  pz : Coordinate m.pz
  vx : m.vx.datum.isFinite = true
  vy : m.vy.datum.isFinite = true
  vz : m.vz.datum.isFinite = true

theorem OrbitWithin.sound {bound : ℕ} {s : OrbitState} (h : OrbitWithin bound s)
    (hbound : bound ≤ 10 ^ 13) :
    SoundMotion ⟨s.px, s.py, s.pz, s.vx.narrow, s.vy.narrow, s.vz.narrow⟩ := by
  have hsmall : bound < 2 ^ 53 := by omega
  exact ⟨coordinate_of_within h.px hbound, coordinate_of_within h.py hbound, coordinate_of_within h.pz hbound,
    (h.vx.narrow hsmall).1, (h.vy.narrow hsmall).1, (h.vz.narrow hsmall).1⟩

/-! ## Objects -/

namespace Generator

/-- What bounds the motion of an object. -/
structure Bounded (p : ObjectParams) : Prop where
  orbitR : p.orbitR.Within 8371000
  orbitIncl : p.orbitIncl.datum.isFinite = true
  orbitRaan : p.orbitRaan.datum.isFinite = true
  orbitPhase0 : p.orbitPhase0.Within 7
  orbitOmega : p.orbitOmega.Within 1
  cometDirX : p.cometDirX.Within 1
  cometDirY : p.cometDirY.Within 1
  cometDirZ : p.cometDirZ.Within 1
  cometR0 : p.cometR0.Within 200000000000
  cometAmp : p.cometAmp.Within 1000000000
  cometOmega : p.cometOmega.Within 1
  cometPhase : p.cometPhase.Within 7
  fixedX : p.fixedX.Within 1000000000000
  fixedY : p.fixedY.Within 1000000000000
  fixedZ : p.fixedZ.Within 1000000000000

/-- The values of an object, of one of the types. -/
structure Values (types : List ObjectType) (flags : U8) (confidence intensity : ℕ × ℕ)
    (r : ObjectRecord) : Prop where
  type : r.type ∈ types.map ObjectType.value
  flags : r.flags = flags
  confidence : confidence.1 ≤ r.confidence.toNat ∧ r.confidence.toNat ≤ confidence.2
  finite : r.intensity.datum.isFinite = true
  intensity : (intensity.1 : ℚ) ≤ r.intensity.datum.toRat ∧ r.intensity.datum.toRat ≤ intensity.2

/-- Stars have a magnitude and ground targets a temperature; the others move. -/
def Typical (r : ObjectRecord) : Prop :=
  Values [.kDebris, .kSatellite, .kComet] Proto.kFlagHasVelocity (50, 100) (0, 0) r ∨
  Values [.kStar] 0 (100, 100) (1, 6) r ∨
  Values [.kGroundHot] 0 (60, 100) (400, 1800) r

/-- What is drawn for an object. -/
structure Drawn (libm : Libm) (id : U32) (p : ObjectParams) : Prop where
  id : p.id = id
  bounded : Bounded p
  typical : ∀ t, Typical ((p.moving libm).record t)

theorem start_bounded (id : U32) : Bounded { id } := by
  have hzero (n : ℕ) : (⟨0⟩ : F64).Within n := by
    refine F64.Within.mono (A := 0) ⟨by decide +kernel, by decide +kernel⟩ (Nat.zero_le n)
  exact ⟨hzero _, (hzero 0).finite, (hzero 0).finite, hzero _, hzero _, hzero _, hzero _, hzero _,
    hzero _, hzero _, hzero _, hzero _, hzero _, hzero _, hzero _⟩

/-- The values of an object that moves. -/
theorem values_moving {r : ObjectRecord} (type : ObjectType) {confidence : F64}
    (htype : r.type = type.value) (hmem : type ∈ [ObjectType.kDebris, .kSatellite, .kComet])
    (hflags : r.flags = Proto.kFlagHasVelocity) (hconfidence : r.confidence = toU8 confidence)
    (hbetween : Between (50 : ℕ) (100 : ℕ) confidence) (hintensity : r.intensity = ⟨0⟩) :
    Typical r := by
  refine .inl ⟨?_, hflags, ?_, ?_, ?_⟩
  · rw [htype]
    exact List.mem_map_of_mem hmem
  · rw [hconfidence]
    exact toU8_between (by decide) hbetween
  · rw [hintensity]
    decide +kernel
  · rw [hintensity]
    decide +kernel

theorem hours_eq {n : ℕ} (hn : n * 3600 < 2 ^ 53) :
    ((F64.ofNat n).mul (F64.ofNat 3600)).Is (n * 3600 : ℕ) := by
  have hle : |(n : ℚ) * (3600 : ℕ)| ≤ (n * 3600 : ℕ) := by
    rw [abs_of_nonneg (by positivity), Nat.cast_mul]
  have hproduct := F64.is_mul (F64.is_ofNat (by omega)) (F64.is_ofNat (n := 3600) (by decide))
    (F64.lt_of_within hn hle)
  rwa [← Nat.cast_mul, F64.rd_natCast hn] at hproduct

/-- A point at a distance, by two angles. -/
theorem polar_within {radius : ℕ} (hsmall : radius < 2 ^ 53) {distance u v : F64}
    (hdistance : distance.Within radius) (hu : u.Within 1) (hv : v.Within 1) :
    ((distance.mul u).mul v).Within radius := by
  have hplane := (hdistance.mul hu (by omega)).mul hv (by omega)
  rwa [Nat.mul_one, Nat.mul_one] at hplane

section Fill
variable {libm : Libm} (hlibm : libm.Documented) (id : U32)
include hlibm

theorem fillOrbitObject_drawn {type : ObjectType} (htype : type = .kDebris ∨ type = .kSatellite) :
    Draws (Drawn libm id) (fillOrbitObject libm type { id }) := by
  have hstart := start_bounded id
  refine Draws.bind (range_ofNat (by decide) (by decide)) fun confidence hconfidence => ?_
  refine Draws.bind (range_ofNat (by decide) (by decide)) fun altitude haltitude => ?_
  refine Draws.bind (range_within (F64.within_ofNat (by decide)) kPi_within le_rfl (by decide))
    fun incl hincl => ?_
  refine Draws.bind (range_within (F64.within_ofNat (by decide)) kTwoPi_within le_rfl (by decide))
    fun raan hraan => ?_
  refine Draws.bind (range_within (F64.within_ofNat (by decide)) kTwoPi_within le_rfl (by decide))
    fun phase0 hphase0 => Draws.pure ?_
  have hr : Between (6371000 : ℕ) (8371000 : ℕ) (kEarthRadiusM.add altitude) :=
    (haltitude.above (F64.is_ofNat (by decide)) (by decide)).mono (by norm_num) (by norm_num)
  refine ⟨rfl, { hstart with
    orbitR := hr.within (by norm_num) le_rfl
    orbitIncl := hincl.finite
    orbitRaan := hraan.finite
    orbitPhase0 := hphase0
    orbitOmega := circularOmega_within hlibm hr }, fun t => ?_⟩
  refine values_moving type rfl ?_ rfl rfl hconfidence rfl
  rcases htype with rfl | rfl <;> decide

theorem fillComet_drawn : Draws (Drawn libm id) (fillComet libm { id }) := by
  have hstart := start_bounded id
  refine Draws.bind (range_ofNat (by decide) (by decide)) fun confidence hconfidence => ?_
  refine Draws.bind (range_within (F64.within_ofNat (by decide)) kPi_within le_rfl (by decide))
    fun theta htheta => ?_
  refine Draws.bind (range_within (F64.within_ofNat (by decide)) kTwoPi_within le_rfl (by decide))
    fun phi hphi => ?_
  refine Draws.bind (range_ofNat (by decide) (by decide)) fun cometR0 hcometR0 => ?_
  refine Draws.bind (range_ofNat (by decide) (by decide)) fun cometAmp hcometAmp => ?_
  refine Draws.bind (range_between (hours_eq (by decide)) (hours_eq (by decide)) (by decide)
    (by decide)) fun periodS hperiodS => ?_
  refine Draws.bind (range_within (F64.within_ofNat (by decide)) kTwoPi_within le_rfl (by decide))
    fun cometPhase hcometPhase => Draws.pure ?_
  have hsinTheta := hlibm.sin theta htheta.finite
  have hslow : (18000 : ℚ) ≤ periodS.datum.toRat := le_trans (by norm_num) hperiodS.lower
  refine ⟨rfl, { hstart with
    cometDirX := hsinTheta.mul (hlibm.cos phi hphi.finite) (by decide)
    cometDirY := hsinTheta.mul (hlibm.sin phi hphi.finite) (by decide)
    cometDirZ := hlibm.cos theta htheta.finite
    cometR0 := hcometR0.within (by norm_num) le_rfl
    cometAmp := hcometAmp.within (by norm_num) le_rfl
    cometOmega := kTwoPi_within.div (F64.is_value hperiodS.finite) (by linarith)
      (by push_cast; linarith) (by decide)
    cometPhase := hcometPhase }, fun t => ?_⟩
  exact values_moving .kComet rfl (by decide) rfl rfl hconfidence rfl

theorem fillStar_drawn : Draws (Drawn libm id) (fillStar libm { id }) := by
  have hstart := start_bounded id
  refine Draws.bind (range_ofNat (by decide) (by decide)) fun intensity hintensity => ?_
  refine Draws.bind (range_within (F64.within_ofNat (by decide)) kPi_within le_rfl (by decide))
    fun theta htheta => ?_
  refine Draws.bind (range_within (F64.within_ofNat (by decide)) kTwoPi_within le_rfl (by decide))
    fun phi hphi => Draws.pure ?_
  have hradius : kStarRadiusM.Within 1000000000000 := F64.within_ofNat (by decide)
  have hsinTheta := hlibm.sin theta htheta.finite
  obtain ⟨hfinite, hlower, hupper⟩ := hintensity.narrow (by decide)
  refine ⟨rfl, { hstart with
    fixedX := polar_within (by decide) hradius hsinTheta (hlibm.cos phi hphi.finite)
    fixedY := polar_within (by decide) hradius hsinTheta (hlibm.sin phi hphi.finite)
    fixedZ := hradius.mul (hlibm.cos theta htheta.finite) (by decide) }, fun t => ?_⟩
  exact .inr (.inl ⟨List.mem_singleton.mpr rfl, rfl, ⟨le_rfl, le_rfl⟩, hfinite, hlower, hupper⟩)

theorem fillGroundHot_drawn : Draws (Drawn libm id) (fillGroundHot libm { id }) := by
  have hstart := start_bounded id
  have hangle {n : ℕ} (hn : 3 * n < 2 ^ 53) : Draws (F64.Within · (3 * n))
      (Lcg.range (minus (F64.ofNat n)) (F64.ofNat n)) :=
    range_within ((F64.within_ofNat (by omega)).neg (by omega)) (F64.within_ofNat (by omega))
      (by omega) hn
  refine Draws.bind (range_ofNat (by decide) (by decide)) fun confidence hconfidence => ?_
  refine Draws.bind (range_ofNat (by decide) (by decide)) fun intensity hintensity => ?_
  refine Draws.bind (hangle (n := 90) (by decide)) fun latDeg hlatDeg => ?_
  refine Draws.bind (hangle (n := 180) (by decide)) fun lonDeg hlonDeg => Draws.pure ?_
  have hlat := (hlatDeg.mul kDegToRad_within (by decide)).finite
  have hlon := (hlonDeg.mul kDegToRad_within (by decide)).finite
  have hradius : kEarthRadiusM.Within 1000000000000 :=
    (F64.within_ofNat (n := 6371000) (by decide)).mono (by decide)
  obtain ⟨hfinite, hlower, hupper⟩ := hintensity.narrow (by decide)
  refine ⟨rfl, { hstart with
    fixedX := polar_within (by decide) hradius (hlibm.cos _ hlat) (hlibm.cos _ hlon)
    fixedY := polar_within (by decide) hradius (hlibm.cos _ hlat) (hlibm.sin _ hlon)
    fixedZ := hradius.mul (hlibm.sin _ hlat) (by decide) }, fun t => ?_⟩
  exact .inr (.inr ⟨List.mem_singleton.mpr rfl, rfl, toU8_between (by decide) hconfidence, hfinite,
    hlower, hupper⟩)

theorem drawObject_drawn (i : ℕ) :
    Draws (Drawn libm (BitVec.ofNat 32 (i + 1))) (drawObject libm i) := by
  refine Draws.bind next01_draws fun roll _ => ?_
  split
  · exact fillOrbitObject_drawn hlibm _ (.inl rfl)
  split
  · exact fillOrbitObject_drawn hlibm _ (.inr rfl)
  split
  · exact fillComet_drawn hlibm _
  split
  · exact fillStar_drawn hlibm _
  · exact fillGroundHot_drawn hlibm _

end Fill
/-! ## Motion -/

section Motion
variable {libm : Libm} (hlibm : libm.Documented) {t : F64} (ht : t.Within (2 ^ 40))
include hlibm ht

/-- Whatever its type, an object that is bounded stays on the wire. -/
theorem motion_sound {p : ObjectParams} (h : Bounded p) : SoundMotion (p.motion libm t) := by
  unfold ObjectParams.motion
  split
  · exact (circularOrbitState_within hlibm h.orbitR h.orbitIncl h.orbitRaan h.orbitPhase0
      h.orbitOmega ht (by decide)).sound (by decide)
  split
  · have hphase := ((h.cometOmega.mul ht (by decide)).add h.cometPhase (by decide)).finite
    have hradius := h.cometR0.add (h.cometAmp.mul (hlibm.sin _ hphase) (by decide)) (by decide)
    have hrate := (h.cometAmp.mul h.cometOmega (by decide)).mul (hlibm.cos _ hphase) (by decide)
    have hplace {d : F64} (hd : d.Within 1) :=
      coordinate_of_within (hd.mul hradius (by decide)) (by decide)
    have hspeed {d : F64} (hd : d.Within 1) := ((hd.mul hrate (by decide)).narrow (by decide)).1
    exact ⟨hplace h.cometDirX, hplace h.cometDirY, hplace h.cometDirZ, hspeed h.cometDirX,
      hspeed h.cometDirY, hspeed h.cometDirZ⟩
  · exact ⟨coordinate_of_within h.fixedX (by decide), coordinate_of_within h.fixedY (by decide),
      coordinate_of_within h.fixedZ (by decide), rfl, rfl, rfl⟩

theorem satMotion_sound (objectCount : ℕ) (seed : U32) :
    SoundMotion ((new libm objectCount seed).satMotion libm t) := by
  have hr : Between (6371000 : ℕ) (8371000 : ℕ) (kEarthRadiusM.add (F64.ofNat 550000)) :=
    ⟨by decide +kernel, by decide +kernel, by decide +kernel⟩
  have hincl : ((F64.ofNat 53).mul kDegToRad).datum.isFinite = true := by decide +kernel
  have hzero : (F64.ofNat 0).Within 7 := (F64.within_ofNat (by decide)).mono (by decide)
  exact (circularOrbitState_within hlibm (hr.within (by norm_num) le_rfl) hincl hzero.finite hzero
    (circularOmega_within hlibm hr) ht (by decide)).sound (by decide)

end Motion

/-! ## Frames -/

/-- The frames that a generator makes at some times. -/
def frames (libm : Libm) (objectCount : ℕ) (seed : U32) (times : List F64) : List Frame :=
  times.map ((new libm objectCount seed).frameAt libm)

/-- The ids count up from one. -/
def ids (objectCount : ℕ) : List U32 :=
  (List.range objectCount).map fun i => BitVec.ofNat 32 (i + 1)

theorem ids_nodup {objectCount : ℕ} (h : objectCount < 2 ^ 32) : (ids objectCount).Nodup := by
  refine List.Nodup.map_on (fun i hi j hj hij => ?_) List.nodup_range
  have hi := List.mem_range.mp hi
  have hj := List.mem_range.mp hj
  have hnat := congrArg BitVec.toNat hij
  rw [BitVec.toNat_ofNat, BitVec.toNat_ofNat, Nat.mod_eq_of_lt (by omega),
    Nat.mod_eq_of_lt (by omega)] at hnat
  omega

section Frames
variable {libm : Libm} (hlibm : libm.Documented)
include hlibm

theorem objects_drawn (objectCount : ℕ) (seed : U32) :
    List.Forall₂ (fun i => Drawn libm (BitVec.ofNat 32 (i + 1))) (List.range objectCount)
      (new libm objectCount seed).objects :=
  Draws.mapM (drawObject_drawn hlibm) (List.range objectCount) ⟨seed⟩

theorem frame_ids (objectCount : ℕ) (seed : U32) (t : F64) :
    ((new libm objectCount seed).frameAt libm t).objects.map ObjectRecord.id = ids objectCount := by
  have hids := (objects_drawn hlibm objectCount seed).imp fun _ _ h => h.id
  change ((List.map _ _).map _).map _ = _
  rw [List.map_map, List.map_map, ids, ← List.forall₂_eq_eq_eq, List.forall₂_map_left_iff,
    List.forall₂_map_right_iff]
  exact hids.flip

theorem frame_object {objectCount : ℕ} {seed : U32} {t : F64} {r : ObjectRecord}
    (h : r ∈ ((new libm objectCount seed).frameAt libm t).objects) :
    ∃ (id : U32) (p : ObjectParams), Drawn libm id p ∧ r = (p.moving libm).record t := by
  obtain ⟨q, hq, rfl⟩ := List.mem_map.mp h
  obtain ⟨p, hp, rfl⟩ := List.mem_map.mp hq
  have hdrawn := objects_drawn hlibm objectCount seed
  obtain ⟨k, rfl⟩ := List.mem_iff_get.mp hp
  have hk : k < (List.range objectCount).length := k.isLt.trans_eq hdrawn.length_eq.symm
  exact ⟨_, _, hdrawn.get hk k.isLt, rfl⟩

/-- A frame of the objects of a generator. -/
structure Generated (objectCount : ℕ) (frame : Frame) : Prop where
  sendable : Sendable frame
  finite : frame.All FiniteRecord
  ids : frame.objects.map ObjectRecord.id = ids objectCount
  typical : ∀ r ∈ frame.objects, Typical r

theorem frameAt_generated {objectCount : ℕ} (hcount : objectCount < 2 ^ 32) (seed : U32) {t : F64}
    (ht : t.Within (2 ^ 40)) : Generated objectCount ((new libm objectCount seed).frameAt libm t) := by
  have hsat := satMotion_sound hlibm ht objectCount seed
  have hids := frame_ids hlibm objectCount seed t
  refine ⟨⟨⟨⟨hsat.px, hsat.py, hsat.pz⟩, fun r hr => ?_⟩, hids.symm ▸ ids_nodup hcount⟩,
    ⟨⟨hsat.px.1, hsat.py.1, hsat.pz.1, hsat.vx, hsat.vy, hsat.vz, rfl⟩, fun r hr => ?_⟩, hids,
    fun r hr => ?_⟩
  · obtain ⟨id, p, hdrawn, rfl⟩ := frame_object hlibm hr
    have hmotion := motion_sound hlibm ht hdrawn.bounded
    exact ⟨hmotion.px, hmotion.py, hmotion.pz⟩
  · obtain ⟨id, p, hdrawn, rfl⟩ := frame_object hlibm hr
    have hmotion := motion_sound hlibm ht hdrawn.bounded
    have hintensity : p.intensity.datum.isFinite = true := by
      rcases hdrawn.typical t with h | h | h <;> exact h.finite
    exact ⟨hmotion.px.1, hmotion.py.1, hmotion.pz.1, hmotion.vx, hmotion.vy, hmotion.vz, hintensity⟩
  · obtain ⟨id, p, hdrawn, rfl⟩ := frame_object hlibm hr
    exact hdrawn.typical t

/-- **Generated frames.** Whatever the seed, every frame of a run has the objects numbered
from one, each with the values that go with its type, and the backend decodes all of them,
as packets and as tracks. -/
theorem generated_frames {objectCount : ℕ} (hcount : objectCount < 2 ^ 32) (seed : U32)
    {times : List F64} (htimes : ∀ t ∈ times, t.Within (2 ^ 40)) :
    Decodes (frames libm objectCount seed times) ∧
      ∀ frame ∈ frames libm objectCount seed times, Generated objectCount frame := by
  have hgenerated : ∀ frame ∈ frames libm objectCount seed times, Generated objectCount frame := by
    intro frame hframe
    obtain ⟨t, ht, rfl⟩ := List.mem_map.mp hframe
    exact frameAt_generated hlibm hcount seed (htimes t ht)
  exact ⟨decodes_of_sendable (fun frame hframe => (hgenerated frame hframe).finite)
    fun frame hframe => (hgenerated frame hframe).sendable, hgenerated⟩

end Frames

/-! ## Library functions for a test -/

def ofRat (q : ℚ) : F64 := .ofDatum (.fin (decide (q < 0)) |q|)

/-- The start of a power series, kept within one. -/
def series (term : ℕ → ℚ) : F64 := ofRat (max (-1) (min 1 ((List.range 30).map term).sum))

/-- Good near zero. -/
def sampleLibm : Libm where
  cos x := series fun k => (-1) ^ k * x.datum.toRat ^ (2 * k) / (2 * k).factorial
  sin x := series fun k => (-1) ^ k * x.datum.toRat ^ (2 * k + 1) / (2 * k + 1).factorial
  sqrt x := ofRat (Nat.sqrt ⌊x.datum.toRat * 4 ^ 80⌋₊ / 2 ^ 80)

theorem toRat_ofRat (q : ℚ) : (Ieee.Datum.fin (decide (q < 0)) |q|).toRat = q := by
  rcases lt_or_ge q 0 with h | h
  · simp [Ieee.Datum.toRat, h, abs_of_neg h]
  · simp [Ieee.Datum.toRat, not_lt.mpr h, abs_of_nonneg h]

theorem ofRat_is {q : ℚ} (h : |q| ≤ (1 : ℕ)) : (ofRat q).Is (Ieee.binary64.rd q) := by
  have hvalue := toRat_ofRat q
  have hsmall : |(Ieee.Datum.fin (decide (q < 0)) |q|).toRat| < 2 ^ 1023 := by
    rw [hvalue]
    exact F64.lt_of_within (by decide) h
  have hproper : (Ieee.Datum.fin (decide (q < 0)) |q|).Proper := abs_nonneg q
  have his := F64.is_ofDatum rfl hproper hsmall
  rwa [hvalue] at his

theorem series_within (term : ℕ → ℚ) : (series term).Within 1 := by
  have hle : |max (-1) (min 1 ((List.range 30).map term).sum)| ≤ (1 : ℕ) := by
    rw [Nat.cast_one]
    exact abs_le.mpr ⟨le_max_left _ _, max_le (by norm_num) (min_le_left _ _)⟩
  exact (ofRat_is hle).within (F64.rd_within (by decide) hle)

theorem sampleLibm_documented : sampleLibm.Documented where
  cos _ _ := series_within _
  sin _ _ := series_within _
  sqrt x hx := by
    have hfloor : (Nat.sqrt ⌊x.datum.toRat * 4 ^ 80⌋₊ : ℚ) ≤ 2 ^ 80 := by
      have hle : ⌊x.datum.toRat * 4 ^ 80⌋₊ ≤ 2 ^ 80 * 2 ^ 80 := by
        refine Nat.floor_le_of_le ?_
        push_cast
        nlinarith [hx.upper]
      exact_mod_cast (Nat.sqrt_le_sqrt hle).trans_eq (Nat.sqrt_eq _)
    have hnonneg : (0 : ℚ) ≤ Nat.sqrt ⌊x.datum.toRat * 4 ^ 80⌋₊ / 2 ^ 80 := by positivity
    have hone : (Nat.sqrt ⌊x.datum.toRat * 4 ^ 80⌋₊ : ℚ) / 2 ^ 80 ≤ (1 : ℕ) := by
      rw [Nat.cast_one]
      exact div_le_one_of_le₀ hfloor (by positivity)
    have his := ofRat_is ((abs_of_nonneg hnonneg).trans_le hone)
    have hrounded := Ieee.binary64.rd_mono hone
    rw [F64.rd_natCast (by decide), Nat.cast_one] at hrounded
    exact ⟨his.finite, his.value.symm ▸ Ieee.binary64.rd_nonneg hnonneg,
      his.value.symm ▸ hrounded⟩

theorem generated_frames_sample :
    Decodes (frames sampleLibm 3 1 [F64.ofNat 0, F64.ofNat 60]) ∧
    ∀ frame ∈ frames sampleLibm 3 1 [F64.ofNat 0, F64.ofNat 60],
      frame.objects.map ObjectRecord.id = [1, 2, 3] ∧ ∀ r ∈ frame.objects, Typical r := by
  have htimes : ∀ t ∈ [F64.ofNat 0, F64.ofNat 60], t.Within (2 ^ 40) := by
    intro t ht
    rcases List.mem_pair.mp ht with rfl | rfl
    · exact (F64.within_ofNat (by decide)).mono (by decide)
    · exact (F64.within_ofNat (by decide)).mono (by decide)
  obtain ⟨hdecodes, hgenerated⟩ :=
    generated_frames sampleLibm_documented (show 3 < 2 ^ 32 by decide) 1 htimes
  exact ⟨hdecodes, fun frame hframe => ⟨(hgenerated frame hframe).ids, (hgenerated frame hframe).typical⟩⟩

end Generator
end Olv.Sim
