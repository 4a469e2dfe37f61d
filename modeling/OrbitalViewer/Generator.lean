import OrbitalViewer.DisBuilder
import OrbitalViewer.Lib.IeeeRounding
import OrbitalViewer.Mission

/-!
# Generated frames

`tools/simulator/src/generator.cpp`: a scenario is drawn from its seed and moves by closed
formulas. The library functions `sin`, `cos` and `sqrt` are parameters, and what is shown
here of draws and orbits holds for all that do as they are documented to.
-/

namespace Olv.Sim
open Ieee (F32 F64 binary64)
open Ieee.F64 (Between)
open Proto (ObjectRecord ObjectType SoundRecord Coordinate)

/-! ## The random numbers -/

structure Lcg where
  state : U32

namespace Lcg

def nextU32 : StateM Lcg U32 := fun g =>
  let state := g.state * 1664525 + 1013904223
  (state, ⟨state⟩)

def next01 : StateM Lcg F64 := do
  let n ← nextU32
  return (F64.ofNat n.toNat).div (F64.ofNat 4294967296)

def range (lo hi : F64) : StateM Lcg F64 := do
  let u ← next01
  return lo.add (u.mul (hi.sub lo))

end Lcg

/-! ## Orbits -/

/-- The functions of `<cmath>`. -/
structure Libm where
  cos : F64 → F64
  sin : F64 → F64
  sqrt : F64 → F64

def kPi : F64 := ⟨0x400921FB54442D18⟩
def kDegToRad : F64 := kPi.div (F64.ofNat 180)
def kTwoPi : F64 := (F64.ofNat 2).mul kPi
def kEarthRadiusM : F64 := F64.ofNat 6371000
def kMuEarth : F64 := F64.ofNat 398600441800000
def kStarRadiusM : F64 := F64.ofNat 1000000000000

structure Vec3 where
  x : F64 := ⟨0⟩
  y : F64 := ⟨0⟩
  z : F64 := ⟨0⟩

structure OrbitState where
  px : F64 := ⟨0⟩
  py : F64 := ⟨0⟩
  pz : F64 := ⟨0⟩
  vx : F64 := ⟨0⟩
  vy : F64 := ⟨0⟩
  vz : F64 := ⟨0⟩

/-- `static_cast<std::uint8_t>` of a number below 256. -/
def toU8 (x : F64) : U8 := BitVec.ofNat 8 ⌊x.datum.toRat⌋₊

def minus (x : F64) : F64 := F64.ofDatum x.datum.neg

section Libm
variable (libm : Libm)

def rotateInclRaan (xOrb yOrb incl raan : F64) : Vec3 :=
  let y1 := yOrb.mul (libm.cos incl)
  let z1 := yOrb.mul (libm.sin incl)
  let x1 := xOrb
  let cr := libm.cos raan
  let sr := libm.sin raan
  ⟨(x1.mul cr).sub (y1.mul sr), (x1.mul sr).add (y1.mul cr), z1⟩

def circularOrbitState (r incl raan phase0 omega t : F64) : OrbitState :=
  let ang := phase0.add (omega.mul t)
  let xOrb := r.mul (libm.cos ang)
  let yOrb := r.mul (libm.sin ang)
  let vxOrb := ((minus r).mul omega).mul (libm.sin ang)
  let vyOrb := (r.mul omega).mul (libm.cos ang)
  let pos := rotateInclRaan libm xOrb yOrb incl raan
  let vel := rotateInclRaan libm vxOrb vyOrb incl raan
  ⟨pos.x, pos.y, pos.z, vel.x, vel.y, vel.z⟩

/-- The angular speed of a circular orbit. -/
def circularOmega (r : F64) : F64 := libm.sqrt (kMuEarth.div ((r.mul r).mul r))

/-! ## The scenario -/

namespace Generator

/-- What is drawn for an object. -/
structure ObjectParams where
  id : U32 := 0
  type : U8 := 0
  confidence : U8 := 100
  intensity : F32 := ⟨0⟩
  hasVelocity : Bool := false
  orbitR : F64 := ⟨0⟩
  orbitIncl : F64 := ⟨0⟩
  orbitRaan : F64 := ⟨0⟩
  orbitPhase0 : F64 := ⟨0⟩
  orbitOmega : F64 := ⟨0⟩
  cometDirX : F64 := ⟨0⟩
  cometDirY : F64 := ⟨0⟩
  cometDirZ : F64 := ⟨0⟩
  cometR0 : F64 := ⟨0⟩
  cometAmp : F64 := ⟨0⟩
  cometOmega : F64 := ⟨0⟩
  cometPhase : F64 := ⟨0⟩
  fixedX : F64 := ⟨0⟩
  fixedY : F64 := ⟨0⟩
  fixedZ : F64 := ⟨0⟩

def fillOrbitObject (type : ObjectType) (p : ObjectParams) : StateM Lcg ObjectParams := do
  let confidence ← Lcg.range (F64.ofNat 50) (F64.ofNat 100)
  let altitude ← Lcg.range (F64.ofNat 400000) (F64.ofNat 2000000)
  let orbitR := kEarthRadiusM.add altitude
  let orbitIncl ← Lcg.range (F64.ofNat 0) kPi
  let orbitRaan ← Lcg.range (F64.ofNat 0) kTwoPi
  let orbitPhase0 ← Lcg.range (F64.ofNat 0) kTwoPi
  return { p with
    type := type.value
    hasVelocity := true
    confidence := toU8 confidence
    intensity := ⟨0⟩
    orbitR, orbitIncl, orbitRaan, orbitPhase0
    orbitOmega := circularOmega libm orbitR }

def fillComet (p : ObjectParams) : StateM Lcg ObjectParams := do
  let confidence ← Lcg.range (F64.ofNat 50) (F64.ofNat 100)
  let theta ← Lcg.range (F64.ofNat 0) kPi
  let phi ← Lcg.range (F64.ofNat 0) kTwoPi
  let cometR0 ← Lcg.range (F64.ofNat 50000000000) (F64.ofNat 200000000000)
  let cometAmp ← Lcg.range (F64.ofNat 100000000) (F64.ofNat 1000000000)
  let periodS ← Lcg.range ((F64.ofNat 5).mul (F64.ofNat 3600)) ((F64.ofNat 50).mul (F64.ofNat 3600))
  let cometPhase ← Lcg.range (F64.ofNat 0) kTwoPi
  return { p with
    type := ObjectType.kComet.value
    hasVelocity := true
    confidence := toU8 confidence
    intensity := ⟨0⟩
    cometDirX := (libm.sin theta).mul (libm.cos phi)
    cometDirY := (libm.sin theta).mul (libm.sin phi)
    cometDirZ := libm.cos theta
    cometR0, cometAmp
    cometOmega := kTwoPi.div periodS
    cometPhase }

def fillStar (p : ObjectParams) : StateM Lcg ObjectParams := do
  let intensity ← Lcg.range (F64.ofNat 1) (F64.ofNat 6)
  let theta ← Lcg.range (F64.ofNat 0) kPi
  let phi ← Lcg.range (F64.ofNat 0) kTwoPi
  return { p with
    type := ObjectType.kStar.value
    hasVelocity := false
    confidence := 100
    intensity := intensity.narrow
    fixedX := (kStarRadiusM.mul (libm.sin theta)).mul (libm.cos phi)
    fixedY := (kStarRadiusM.mul (libm.sin theta)).mul (libm.sin phi)
    fixedZ := kStarRadiusM.mul (libm.cos theta) }

def fillGroundHot (p : ObjectParams) : StateM Lcg ObjectParams := do
  let confidence ← Lcg.range (F64.ofNat 60) (F64.ofNat 100)
  let intensity ← Lcg.range (F64.ofNat 400) (F64.ofNat 1800)
  let latDeg ← Lcg.range (minus (F64.ofNat 90)) (F64.ofNat 90)
  let lonDeg ← Lcg.range (minus (F64.ofNat 180)) (F64.ofNat 180)
  let lat := latDeg.mul kDegToRad
  let lon := lonDeg.mul kDegToRad
  return { p with
    type := ObjectType.kGroundHot.value
    hasVelocity := false
    confidence := toU8 confidence
    intensity := intensity.narrow
    fixedX := (kEarthRadiusM.mul (libm.cos lat)).mul (libm.cos lon)
    fixedY := (kEarthRadiusM.mul (libm.cos lat)).mul (libm.sin lon)
    fixedZ := kEarthRadiusM.mul (libm.sin lat) }

/-- A number of the source, such as 0.70. -/
def decimal (q : ℚ) : F64 := F64.ofDatum (.fin false q)

/-- The object at index `i`. -/
def drawObject (i : ℕ) : StateM Lcg ObjectParams := do
  let p : ObjectParams := { id := BitVec.ofNat 32 (i + 1) }
  let roll ← Lcg.next01
  if roll.datum.lt (decimal 0.70).datum then fillOrbitObject libm .kDebris p
  else if roll.datum.lt (decimal 0.80).datum then fillOrbitObject libm .kSatellite p
  else if roll.datum.lt (decimal 0.85).datum then fillComet libm p
  else if roll.datum.lt (decimal 0.90).datum then fillStar libm p
  else fillGroundHot libm p

/-- Where an object is at a time. -/
def ObjectParams.motion (p : ObjectParams) (t : F64) : Motion :=
  if p.type = ObjectType.kDebris.value ∨ p.type = ObjectType.kSatellite.value then
    let s := circularOrbitState libm p.orbitR p.orbitIncl p.orbitRaan p.orbitPhase0 p.orbitOmega t
    ⟨s.px, s.py, s.pz, s.vx.narrow, s.vy.narrow, s.vz.narrow⟩
  else if p.type = ObjectType.kComet.value then
    let phase := (p.cometOmega.mul t).add p.cometPhase
    let radius := p.cometR0.add (p.cometAmp.mul (libm.sin phase))
    let radialRate := (p.cometAmp.mul p.cometOmega).mul (libm.cos phase)
    ⟨p.cometDirX.mul radius, p.cometDirY.mul radius, p.cometDirZ.mul radius,
      (p.cometDirX.mul radialRate).narrow, (p.cometDirY.mul radialRate).narrow,
      (p.cometDirZ.mul radialRate).narrow⟩
  else ⟨p.fixedX, p.fixedY, p.fixedZ, ⟨0⟩, ⟨0⟩, ⟨0⟩⟩

/-- An object for `frameAt`. -/
def ObjectParams.moving (p : ObjectParams) : Sim.ObjectParams where
  id := p.id
  type := p.type
  confidence := p.confidence
  intensity := p.intensity
  hasVelocity := p.hasVelocity
  motion := p.motion libm

end Generator

structure Generator where
  satR : F64
  satIncl : F64
  satOmega : F64
  objects : List Generator.ObjectParams

namespace Generator

def new (objectCount : ℕ) (seed : U32) : Generator :=
  let satR := kEarthRadiusM.add (F64.ofNat 550000)
  { satR
    satIncl := (F64.ofNat 53).mul kDegToRad
    satOmega := circularOmega libm satR
    objects := (((List.range objectCount).mapM (drawObject libm)).run ⟨seed⟩).1 }

def satMotion (gen : Generator) (t : F64) : Motion :=
  let sat := circularOrbitState libm gen.satR gen.satIncl (F64.ofNat 0) (F64.ofNat 0) gen.satOmega t
  ⟨sat.px, sat.py, sat.pz, sat.vx.narrow, sat.vy.narrow, sat.vz.narrow⟩

def frameAt (gen : Generator) (t : F64) : Frame :=
  Sim.frameAt (gen.satMotion libm) (gen.objects.map (ObjectParams.moving libm)) t

end Generator
end Libm

/-! ## Draws -/

/-- What holds of a draw, wherever the generator stands. -/
def Draws {α : Type} (P : α → Prop) (draw : StateM Lcg α) : Prop := ∀ g, P (draw g).1

section Draws
variable {α β : Type} {P : α → Prop} {Q : β → Prop}

theorem Draws.pure {x : α} (h : P x) : Draws P (pure x : StateM Lcg α) := fun _ => h

theorem Draws.bind {draw : StateM Lcg α} {next : α → StateM Lcg β} (h : Draws P draw)
    (hnext : ∀ x, P x → Draws Q (next x)) : Draws Q (draw >>= next) :=
  fun g => hnext _ (h g) _

theorem Draws.mapM {γ : Type} {P : γ → α → Prop} {draw : γ → StateM Lcg α}
    (h : ∀ c, Draws (P c) (draw c)) (cs : List γ) : Draws (List.Forall₂ P cs) (cs.mapM draw) := by
  induction cs with
  | nil => exact Draws.pure .nil
  | cons c cs ih =>
    rw [List.mapM_cons]
    exact Draws.bind (h c) fun x hx => Draws.bind ih fun xs hxs => Draws.pure (.cons hx hxs)

end Draws

theorem next01_draws : Draws (Between 0 1) Lcg.next01 := by
  intro g
  change Between 0 1 ((F64.ofNat (g.state * 1664525 + 1013904223).toNat).div (F64.ofNat 4294967296))
  generalize g.state * 1664525 + 1013904223 = n
  have hlt := n.isLt
  have hle : (n.toNat : ℚ) / (4294967296 : ℕ) ≤ (1 : ℕ) := by
    rw [div_le_iff₀ (by norm_num)]
    have hcast : (n.toNat : ℚ) < 4294967296 := by exact_mod_cast hlt
    push_cast
    linarith
  have hnonneg : (0 : ℚ) ≤ (n.toNat : ℚ) / (4294967296 : ℕ) := by positivity
  have hu := F64.is_div (F64.is_ofNat (hlt.trans (by decide)))
    (F64.is_ofNat (n := 4294967296) (by decide)) (by norm_num)
    (F64.lt_of_within (show 1 < 2 ^ 53 by decide) (by rwa [abs_of_nonneg hnonneg]))
  refine ⟨hu.finite, ?_, ?_⟩
  · rw [hu.value]
    exact binary64.rd_nonneg hnonneg
  · rw [hu.value]
    have hone := binary64.rd_mono hle
    rwa [F64.rd_natCast (by decide), Nat.cast_one] at hone

/-- A draw from a range, roughly. -/
theorem range_within {lo hi : F64} {A B C : ℕ} (hlo : lo.Within A) (hhi : hi.Within B)
    (hC : A + 1 * (B + A) ≤ C) (hsmall : C < 2 ^ 53) : Draws (F64.Within · C) (Lcg.range lo hi) := by
  refine Draws.bind next01_draws fun u hu => Draws.pure ?_
  have hunit : u.Within 1 := hu.within (by norm_num) (by norm_num)
  exact (hlo.add (hunit.mul (hhi.sub hlo (by omega)) (by omega)) (by omega)).mono hC

/-- A draw between whole numbers is between them. -/
theorem range_between {lo hi : ℕ} {x y : F64} (hx : x.Is lo) (hy : y.Is hi) (hle : lo ≤ hi)
    (hhi : hi < 2 ^ 53) : Draws (Between lo hi) (Lcg.range x y) := by
  refine Draws.bind next01_draws fun u hu => Draws.pure ?_
  have hspan : (hi : ℚ) - lo = (hi - lo : ℕ) := (Nat.cast_sub hle).symm
  have hwidth : (y.sub x).Is (hi - lo : ℕ) := by
    have hsub := F64.is_sub hy hx (F64.lt_of_within (show hi - lo < 2 ^ 53 by omega)
      (by rw [hspan, abs_of_nonneg (Nat.cast_nonneg _)]))
    rwa [hspan, F64.rd_natCast (by omega)] at hsub
  have hwide : (0 : ℚ) ≤ (hi - lo : ℕ) := Nat.cast_nonneg _
  have hpart : 0 ≤ u.datum.toRat * (hi - lo : ℕ) := mul_nonneg hu.lower hwide
  have hpart' : u.datum.toRat * (hi - lo : ℕ) ≤ (hi - lo : ℕ) :=
    mul_le_of_le_one_left hwide hu.upper
  have hscaled := F64.is_mul (F64.is_value hu.finite) hwidth
    (F64.lt_of_within (show hi - lo < 2 ^ 53 by omega) (by rwa [abs_of_nonneg hpart]))
  have hoff' := binary64.rd_mono hpart'
  rw [F64.rd_natCast (by omega)] at hoff'
  have hoff : Between (0 : ℕ) (hi - lo : ℕ) (u.mul (y.sub x)) :=
    ⟨hscaled.finite, by
      rw [hscaled.value, Nat.cast_zero]
      exact binary64.rd_nonneg hpart, by rwa [hscaled.value]⟩
  have hdrawn := hoff.above hx (by omega)
  rwa [Nat.add_zero, Nat.add_sub_cancel' hle] at hdrawn

/-- A draw from a range of whole numbers. -/
theorem range_ofNat {lo hi : ℕ} (hle : lo ≤ hi) (hhi : hi < 2 ^ 53) :
    Draws (Between lo hi) (Lcg.range (F64.ofNat lo) (F64.ofNat hi)) :=
  range_between (F64.is_ofNat (hle.trans_lt hhi)) (F64.is_ofNat hhi) hle hhi

theorem toU8_between {lo hi : ℕ} (hhi : hi < 256) {x : F64} (h : Between lo hi x) :
    lo ≤ (toU8 x).toNat ∧ (toU8 x).toNat ≤ hi := by
  have hlower : lo ≤ ⌊x.datum.toRat⌋₊ := Nat.le_floor h.lower
  have hupper : ⌊x.datum.toRat⌋₊ ≤ hi := Nat.floor_le_of_le h.upper
  rw [toU8, BitVec.toNat_ofNat, Nat.mod_eq_of_lt (by omega)]
  exact ⟨hlower, hupper⟩

/-! ## Orbits stay bounded -/

/-- What the functions of `<cmath>` are documented to do. -/
structure Libm.Documented (libm : Libm) : Prop where
  cos : ∀ x : F64, x.datum.isFinite = true → (libm.cos x).Within 1
  sin : ∀ x : F64, x.datum.isFinite = true → (libm.sin x).Within 1
  sqrt : ∀ x : F64, Between 0 1 x → Between 0 1 (libm.sqrt x)

theorem kPi_within : kPi.Within 4 := ⟨by decide +kernel, by decide +kernel⟩
theorem kTwoPi_within : kTwoPi.Within 7 := ⟨by decide +kernel, by decide +kernel⟩
theorem kDegToRad_within : kDegToRad.Within 1 := ⟨by decide +kernel, by decide +kernel⟩

theorem coordinate_of_within {x : F64} {bound : ℕ} (h : x.Within bound) (hle : bound ≤ 10 ^ 13) :
    Coordinate x := by
  refine ⟨h.finite, h.bound.trans ?_⟩
  exact_mod_cast hle

section Orbit
variable {libm : Libm} (hlibm : libm.Documented)
include hlibm

/-- The state of an orbit within a radius. -/
structure OrbitWithin (bound : ℕ) (s : OrbitState) : Prop where
  px : s.px.Within bound
  py : s.py.Within bound
  pz : s.pz.Within bound
  vx : s.vx.Within bound
  vy : s.vy.Within bound
  vz : s.vz.Within bound

theorem rotateInclRaan_within {x y incl raan : F64} {B : ℕ} (hx : x.Within B) (hy : y.Within B)
    (hincl : incl.datum.isFinite = true) (hraan : raan.datum.isFinite = true)
    (hB : B + B < 2 ^ 53) :
    let v := rotateInclRaan libm x y incl raan
    v.x.Within (B + B) ∧ v.y.Within (B + B) ∧ v.z.Within (B + B) := by
  have hunit {u : F64} {C : ℕ} (hu : u.Within C) (hC : C < 2 ^ 53) {c : F64} (hc : c.Within 1) :
      (u.mul c).Within C :=
    (hu.mul hc (by omega)).mono (Nat.mul_one C).le
  have hy1 := hunit hy (by omega) (hlibm.cos incl hincl)
  have hz1 := hunit hy (by omega) (hlibm.sin incl hincl)
  have hcr := hlibm.cos raan hraan
  have hsr := hlibm.sin raan hraan
  refine ⟨?_, ?_, hz1.mono (by omega)⟩
  · exact (hunit hx (by omega) hcr).sub (hunit hy1 (by omega) hsr) hB
  · exact (hunit hx (by omega) hsr).add (hunit hy1 (by omega) hcr) hB

theorem circularOrbitState_within {r incl raan phase0 omega t : F64} {R : ℕ} (hr : r.Within R)
    (hincl : incl.datum.isFinite = true) (hraan : raan.datum.isFinite = true)
    (hphase : phase0.Within 7) (homega : omega.Within 1) (ht : t.Within (2 ^ 40))
    (hR : R + R < 2 ^ 53) :
    OrbitWithin (R + R) (circularOrbitState libm r incl raan phase0 omega t) := by
  have hang : (phase0.add (omega.mul t)).Within (7 + 1 * 2 ^ 40) :=
    hphase.add (homega.mul ht (by decide)) (by decide)
  have hcos := hlibm.cos _ hang.finite
  have hsin := hlibm.sin _ hang.finite
  have hunit {u : F64} (hu : u.Within R) {c : F64} (hc : c.Within 1) : (u.mul c).Within R :=
    (hu.mul hc (by omega)).mono (Nat.mul_one R).le
  obtain ⟨px, py, pz⟩ := rotateInclRaan_within hlibm (hunit hr hcos) (hunit hr hsin) hincl hraan hR
  obtain ⟨vx, vy, vz⟩ := rotateInclRaan_within hlibm
    (hunit (hunit (hr.neg (by omega)) homega) hsin) (hunit (hunit hr homega) hcos) hincl hraan hR
  exact ⟨px, py, pz, vx, vy, vz⟩

/-- Orbits from the surface up are slower than a radian per second. -/
theorem circularOmega_within {r : F64} (hr : Between (6371000 : ℕ) (8371000 : ℕ) r) :
    (circularOmega libm r).Within 1 := by
  have hr0 : (0 : ℚ) ≤ r.datum.toRat := (Nat.cast_nonneg _).trans hr.lower
  have hupper : r.datum.toRat ≤ 8371000 := by exact_mod_cast hr.upper
  have hlower : (6371000 : ℚ) ≤ r.datum.toRat := by exact_mod_cast hr.lower
  have hsquare : r.datum.toRat * r.datum.toRat ≤ (70073641000000 : ℕ) := by
    push_cast
    nlinarith
  have hsquare' : ((40589641000000 : ℕ) : ℚ) ≤ r.datum.toRat * r.datum.toRat := by
    push_cast
    nlinarith
  have hrr := F64.is_mul (F64.is_value hr.finite) (F64.is_value hr.finite)
    (F64.lt_of_within (show 70073641000000 < 2 ^ 53 by decide)
      (by rwa [abs_of_nonneg (mul_nonneg hr0 hr0)]))
  have hlo := binary64.rd_mono hsquare'
  have hhi := binary64.rd_mono hsquare
  rw [F64.rd_natCast (by decide)] at hlo hhi
  push_cast at hlo hhi
  generalize binary64.rd (r.datum.toRat * r.datum.toRat) = q at hrr hlo hhi
  have hcube : ((2 ^ 52 : ℕ) : ℚ) ≤ q * r.datum.toRat := by
    push_cast
    nlinarith
  have hcube0 : 0 ≤ q * r.datum.toRat := (Nat.cast_nonneg _).trans hcube
  have hrrr := F64.is_mul hrr (F64.is_value hr.finite) (by
    rw [abs_of_nonneg hcube0]
    calc q * r.datum.toRat ≤ 70073641000000 * 8371000 := by nlinarith
      _ < 2 ^ 100 := by norm_num
      _ < 2 ^ 1023 := pow_lt_pow_right₀ (by norm_num) (by decide))
  have hfar := binary64.rd_mono hcube
  rw [F64.rd_natCast (by decide)] at hfar
  push_cast at hfar
  generalize binary64.rd (q * r.datum.toRat) = c at hrrr hfar
  have hc : 0 < c := lt_of_lt_of_le (by norm_num) hfar
  have hmu : ((398600441800000 : ℕ) : ℚ) / c ≤ (1 : ℕ) := by
    rw [div_le_iff₀ hc]
    push_cast
    linarith
  have hmu0 : 0 ≤ ((398600441800000 : ℕ) : ℚ) / c := div_nonneg (Nat.cast_nonneg _) hc.le
  have hdiv := F64.is_div (F64.is_ofNat (n := 398600441800000) (by decide)) hrrr hc.ne'
    (F64.lt_of_within (show 1 < 2 ^ 53 by decide) (by rwa [abs_of_nonneg hmu0]))
  have hone := binary64.rd_mono hmu
  rw [F64.rd_natCast (by decide), Nat.cast_one] at hone
  have hpositive := binary64.rd_nonneg hmu0
  rw [← hdiv.value] at hone hpositive
  exact (hlibm.sqrt _ ⟨hdiv.finite, hpositive, hone⟩).within (by norm_num) (by norm_num)

end Orbit
end Olv.Sim
