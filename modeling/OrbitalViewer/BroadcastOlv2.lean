import OrbitalViewer.BroadcastOlv1

/-!
# The broadcast of an OLV2 run

The decoder bounds neither a sample time from above nor the step between two
times from below, so a long time is cut by the buffer of `appendFloat` and a
short step overflows the estimated velocity. `Representable` says which packets
do neither, and `olv2_broadcast_read` that their broadcasts are accepted.
-/

namespace Olv
open Ieee (Datum F32 F64)
open Decimal (digits fixed rounded)
open Json (Parses)
open Proto (Coordinate)

/-! ## Sample times -/

/-- The times whose text keeps its value in 47 characters: of more digits the
text keeps only some, and of 46 digits it ends in the point. -/
def TimeFits (t : F64) : Prop :=
  t.datum.toRat < 10 ^ 45 ∨ (10 ^ 46 ≤ t.datum.toRat ∧ t.datum.toRat < 10 ^ 47)

/-- Of 45 digits or of 47, a whole number is cut where only zeros follow. -/
theorem cut_parses {n : Nat} (h : n < 10 ^ 45 ∨ (10 ^ 46 ≤ n ∧ n < 10 ^ 47)) :
    Parses ((digits n ++ '.' :: List.replicate 3 '0').take 47) (.num n) := by
  have hlen (k : Nat) (hk : 0 < k) := Decimal.length_digits_le_iff (n := n) hk
  have h47 : (digits n).length ≤ 47 := (hlen 47 (by decide)).mpr (by omega)
  rw [List.take_append, List.take_of_length_le h47]
  rcases h with h | ⟨hlo, hhi⟩
  · have h45 : (digits n).length ≤ 45 := (hlen 45 (by decide)).mpr h
    obtain ⟨j, hj⟩ : ∃ j, 47 - (digits n).length = j + 2 := ⟨45 - (digits n).length, by omega⟩
    obtain ⟨i, hi⟩ : ∃ i, min (j + 1) 3 = i + 1 := ⟨min (j + 1) 3 - 1, by omega⟩
    have hzero : Decimal.value (List.replicate (i + 1) '0') = 0 := by
      rw [Decimal.value, Nat.ofDigitChars_replicate_zero, Nat.mul_zero]
    have hvalue : Decimal.value (digits n ++ List.replicate (i + 1) '0') = 10 ^ (i + 1) * n := by
      rw [Decimal.value_append, Decimal.value_digits, List.length_replicate, hzero, Nat.add_zero]
    have hparse := Parses.number false (f := List.replicate (i + 1) '0')
      (Decimal.digits_ne_nil n) (fun _ hc => Decimal.isDigit_digits hc) Decimal.digits_head
      (fun c hc => by rw [List.eq_of_mem_replicate hc]; rfl)
    have hpow : (10 : ℚ) ^ (i + 1) ≠ 0 := by positivity
    rw [hvalue, List.length_replicate, Nat.cast_mul, Nat.cast_pow, Nat.cast_ofNat, Json.signed,
      if_neg Bool.false_ne_true, mul_div_cancel_left₀ _ hpow] at hparse
    rw [hj, List.take_succ_cons, List.take_replicate, hi]
    exact hparse
  · have h46 : ¬ (digits n).length ≤ 46 := fun hle => by
      have := (hlen 46 (by decide)).mp hle
      omega
    rw [Nat.sub_eq_zero_of_le (by omega), List.take_zero, List.append_nil]
    exact Parses.digits n

theorem time_prints {t : F64} (hfin : t.datum.isFinite = true) (hpos : 0 < t.datum.toRat)
    (h : TimeFits t) : Prints 3 t.datum := by
  rcases le_or_gt t.datum.toRat (10 ^ 40) with hle | hgt
  · exact (prints_of_bounded (by decide) t.datum_proper hfin (B := 10 ^ 40) (k := 41) (by decide)
      (by rw [abs_of_pos hpos]; exact_mod_cast hle) (by decide) (by decide)).2
  · have habs : |t.datum.toRat| = t.datum.toRat := abs_of_pos hpos
    have hbig : (2 : ℚ) ^ (Ieee.binary64.frac + 1) ≤ |t.datum.toRat| := by
      rw [habs]
      exact le_trans (by decide +kernel) hgt.le
    obtain ⟨n, hn⟩ := Ieee.binary64.decode_integral hfin hbig
    have hvalue : t.datum.toRat = n := habs.symm.trans hn
    have hdatum := Datum.eq_of_toRat_pos t.datum_proper hpos
    obtain ⟨hfixed, hrounded⟩ := Decimal.fixed_natCast (p := 3) (by decide) n
    rw [TimeFits, hvalue] at h
    have hn' : n < 10 ^ 45 ∨ (10 ^ 46 ≤ n ∧ n < 10 ^ 47) := by exact_mod_cast h
    have hlt : (n : ℚ) < 10 ^ 47 := by
      have : n < 10 ^ 47 := by omega
      exact_mod_cast this
    rw [hdatum, hvalue]
    refine ⟨?_, ?_⟩
    · rw [appendFloat, hfixed, hrounded]
      exact cut_parses hn'
    · rw [hrounded, abs_of_nonneg (Nat.cast_nonneg n)]
      exact hlt.trans (by decide +kernel)

/-! ## Estimated velocities -/

/-- The quotients that are rounded below the first `float` that overflows: those
half a step of `double` below it. -/
def kVelocityLimit : ℚ := 2 ^ 128 - 2 ^ 103 - 2 ^ 74

/-- The difference quotient of two positions is a finite `float`. -/
def Estimable (a b dt : F64) : Prop :=
  |(a.sub b).datum.toRat| < kVelocityLimit * dt.datum.toRat

/-- A quotient below the limit narrows to a finite `float`. -/
theorem narrow_finite (neg : Bool) {q : ℚ} (hq : 0 ≤ q) (hlt : q < kVelocityLimit) :
    (F64.ofDatum (.fin neg q)).narrow.datum.isFinite = true := by
  have hscale64 : (Ieee.binary64.scale : ℚ) = 2 ^ 1074 := Ieee.binary64.scale_eq rfl
  have hscale32 : (Ieee.binary32.scale : ℚ) = 2 ^ 149 := Ieee.binary32.scale_eq rfl
  have hsplit : (2 : ℚ) ^ 1149 = 2 ^ 75 * 2 ^ 1074 := by rw [← pow_add]
  have hpos : (0 : ℚ) < 2 ^ 1074 := by positivity
  have hmid : q * Ieee.binary64.scale < ((2 ^ 53 - 2 ^ 28 : ℕ) - 1 / 2) * 2 ^ 1149 := by
    have hlimit : kVelocityLimit = ((2 ^ 53 - 2 ^ 28 : ℕ) - 1 / 2) * 2 ^ 75 := by decide +kernel
    rw [hscale64, hsplit, ← mul_assoc, ← hlimit]
    exact mul_lt_mul_of_pos_right hlt hpos
  obtain ⟨mag, hround, hmag, hbelow⟩ := Ieee.binary64.round_lt hq (s := 1149) (m := 2 ^ 53 - 2 ^ 28)
    (by decide) (by decide) (by decide) (by decide +kernel) hmid neg
  have hbound : mag < (2 ^ 53 - 2 ^ 28 : ℕ) * 2 ^ 75 := by
    rw [hscale64, hsplit, ← mul_assoc] at hbelow
    exact lt_of_mul_lt_mul_right hbelow hpos.le
  have hfits : mag * Ieee.binary32.scale < Ieee.binary32.overflow := by
    have hoverflow : Ieee.binary32.overflow = (2 ^ 53 - 2 ^ 28 : ℕ) * 2 ^ 75 * 2 ^ 149 := by
      decide +kernel
    rw [hscale32, hoverflow]
    exact mul_lt_mul_of_pos_right hbound (by positivity)
  have hcode := (Ieee.binary32.code_finite_iff (by decide)
    (mul_nonneg hmag Ieee.binary32.scale_pos.le)).mpr hfits
  rw [F64.narrow, F32.datum_ofDatum, F64.datum_ofDatum, hround, Ieee.Format.round, if_pos hcode]
  rfl

/-- Positions in range are subtracted without overflow. -/
theorem sub_finite {a b : F64} (ha : Coordinate a) (hb : Coordinate b) :
    ∃ neg mag, (a.sub b).datum = .fin neg mag ∧ 0 ≤ mag := by
  obtain ⟨hafin, hale⟩ := ha
  obtain ⟨hbfin, hble⟩ := hb
  rw [F64.sub, F64.datum_ofDatum]
  cases hda : a.datum with
  | fin na p =>
    cases hdb : b.datum with
    | fin nb q =>
      rw [hda] at hale
      rw [hdb] at hble
      obtain ⟨neg, hsub⟩ := Datum.sub_fin na nb p q
      have hle : |(Datum.fin na p).toRat - (Datum.fin nb q).toRat| ≤ 2 ^ 45 :=
        calc |(Datum.fin na p).toRat - (Datum.fin nb q).toRat|
            ≤ |(Datum.fin na p).toRat| + |(Datum.fin nb q).toRat| := abs_sub _ _
          _ ≤ 10 ^ 13 + 10 ^ 13 := add_le_add hale hble
          _ ≤ 2 ^ 45 := by norm_num
      obtain ⟨mag, hround, hmag, _⟩ := Ieee.binary64.round_le (by decide) (by decide) (k := 45)
        (by decide) neg (abs_nonneg _) hle
      exact ⟨neg, mag, by rw [hsub, hround], hmag⟩
    | _ => rw [hdb] at hbfin; cases hbfin
  | _ => rw [hda] at hafin; cases hafin

theorem estimate_finite {a b dt : F64} (ha : Coordinate a) (hb : Coordinate b)
    (h : Estimable a b dt) :
    (Olv2InputSource.differenceVelocity a b dt).datum.isFinite = true := by
  obtain ⟨neg, mag, hsub, hmag⟩ := sub_finite ha hb
  have hlimit : 0 < kVelocityLimit := by decide +kernel
  have hdt : 0 < dt.datum.toRat := pos_of_mul_pos_right ((abs_nonneg _).trans_lt h) hlimit.le
  rw [Estimable, hsub, Datum.abs_toRat hmag, ← div_lt_iff₀ hdt] at h
  have hdiv : ((a.sub b).datum.div dt.datum) = .fin (neg ^^ false) (mag / dt.datum.toRat) := by
    rw [hsub, Datum.eq_of_toRat_pos dt.datum_proper hdt]
    exact Datum.div_fin neg false mag hdt.ne'
  rw [Olv2InputSource.differenceVelocity, F64.div, hdiv]
  exact narrow_finite _ (div_nonneg hmag hdt.le) h

namespace Olv2InputSource
open Proto.Olv2 (TrackPacket Point SoundPoints)

/-- The sample before the newest one. -/
def previous (pkt : TrackPacket) : Point := pkt.points.getD (pkt.points.length - 2) {}

/-- What a packet must meet for the broadcast to show it: times that fit, and a
satellite velocity that can be estimated where it is stored at all. -/
structure Representable (store : StateStore) (pkt : TrackPacket) : Prop where
  times : ∀ p ∈ pkt.points, TimeFits p.t
  velocity : store.replacesSatellite (updateOf pkt) = true → (newest pkt).satHasVelocity = false →
    2 ≤ pkt.points.length →
    let p := newest pkt
    let prev := previous pkt
    let dt := p.t.sub prev.t
    Estimable p.satPx prev.satPx dt ∧ Estimable p.satPy prev.satPy dt ∧
      Estimable p.satPz prev.satPz dt

/-- An event that admits no packet but a representable one. -/
def Shows (m : Memory) (store : StateStore) : Event → Prop
  | .datagram d => ∀ pkt ∈ admitted d m, Representable store pkt
  | .snapshot _ => True

theorem previous_mem {pkt : TrackPacket} (h : 2 ≤ pkt.points.length) :
    previous pkt ∈ pkt.points := by
  rw [previous, List.getD_eq_getElem _ _ (by omega)]
  exact List.getElem_mem _

theorem satelliteOf_velocity {store : StateStore} {pkt : TrackPacket} (hne : pkt.points ≠ [])
    (hs : SoundPoints pkt.points) (h : Representable store pkt)
    (hreplaces : store.replacesSatellite (updateOf pkt) = true) :
    FiniteVelocity (satelliteOf pkt) := by
  have hnew := hs.sound (newest pkt) (newest_mem hne)
  have hzero : (F32.mk 0).datum.isFinite = true := by decide +kernel
  unfold satelliteOf
  dsimp only
  split
  · exact ⟨hnew.satVx, hnew.satVy, hnew.satVz⟩
  · rename_i hvel
    split
    · rename_i htwo
      have hprev := hs.sound (previous pkt) (previous_mem htwo)
      obtain ⟨hx, hy, hz⟩ := h.velocity hreplaces (Bool.eq_false_iff.mpr hvel) htwo
      exact ⟨estimate_finite hnew.satPx hprev.satPx hx, estimate_finite hnew.satPy hprev.satPy hy,
        estimate_finite hnew.satPz hprev.satPz hz⟩
    · exact ⟨hzero, hzero, hzero⟩

end Olv2InputSource

open Olv2InputSource

theorem showable_step {s : olv2InputSource.State} (e : Event) (he : Shows s.memory s.store e)
    (h : Showable s.store) : Showable (olv2InputSource.step e s).2.store := by
  have hsound := olv2_step_sound h.sound e
  cases e with
  | snapshot mono => exact ⟨hsound, h.velocity, by rintro _ ⟨⟩⟩
  | datagram d =>
    have hproc : (olv2InputSource.step (.datagram d) s).2.store =
        (Olv2InputSource.processDatagram d s.memory s.store).store := rfl
    rw [hproc] at hsound ⊢
    rcases processDatagram_cases d s.memory with ⟨_, o, log, _, heq⟩ | ⟨pkt, log, hadm, heq⟩
    · rw [heq] at hsound ⊢
      obtain ⟨hsat, htrail⟩ := refused_store o log _ s.memory
        (s.store.countReceived d.bytes.length)
      exact ⟨hsound, fun sat hmem => h.velocity sat (hsat ▸ hmem),
        fun tp htp => h.times tp (htrail ▸ htp)⟩
    · obtain ⟨hd, rfl, _⟩ := admitted_documented hadm
      have hshows := he _ hadm
      have hne := Proto.Olv2.points_packetAt_ne hd
      rw [heq] at hsound ⊢
      refine ⟨hsound, fun sat hmem => ?_, fun tp htp => ?_⟩
      · simp only [StateStore.applyTrack] at hmem
        split at hmem
        · rename_i hreplaces
          obtain rfl := Option.some.inj hmem
          exact satelliteOf_velocity hne hd.sound hshows hreplaces
        · exact h.velocity sat hmem
      · rcases StateStore.mem_appendTrail htp with hold | hnew
        · exact h.times tp hold
        · obtain ⟨p, hp, rfl⟩ := List.mem_map.mp hnew
          exact time_prints (hd.sound.sound p hp).t (hd.sound.positive p hp) (hshows.times p hp)

def FiniteVec (v : NetParse.Vec3) : Prop :=
  |v.1| < NetParse.kOverflow ∧ |v.2.1| < NetParse.kOverflow ∧ |v.2.2| < NetParse.kOverflow

/-- **The OLV2 broadcast** of a run whose packets are all representable is
accepted in every state, with a finite satellite velocity and the pending trail
point by point. -/
theorem olv2_broadcast_read {expiry : Int} {events : List Event}
    (h : olv2InputSource.Along (fun s e => Shows s.memory s.store e)
      (olv2InputSource.start expiry) events)
    (n : Nat) (mono serverTime : Int) (broadcastSeq : Nat) (wsClients : BitVec 32) :
    let s := (olv2InputSource.run (olv2InputSource.start expiry) (events.take n)).store
    ∃ m, NetParse.parseStateMessage (buildStateMessage (broadcastSnapshot s mono broadcastSeq)
        serverTime wsClients) = .ok (.state m) ∧
      m.satellite = s.satellite.map shownSatellite ∧ (∀ sat ∈ m.satellite, FiniteVec sat.vel) ∧
      m.trailPoints = s.pendingTrail.map shownTrailPoint := by
  have hempty : Showable { objectExpiry := expiry } :=
    ⟨StateStore.sound_empty expiry, by rintro _ ⟨⟩, by rintro _ ⟨⟩⟩
  have hrun := @InputSource.run_along olv2InputSource _ (fun s => Showable s.store)
    (fun _ e he hs => showable_step e he hs) _ _ h hempty n
  have hprints := hrun.prints mono broadcastSeq
  refine ⟨_, message_read hprints serverTime wsClients, rfl, fun sat hsat => ?_, rfl⟩
  obtain ⟨stored, hstored, rfl⟩ := Option.mem_map.mp hsat
  obtain ⟨_, _, _, hvx, hvy, hvz⟩ := hprints.satellite stored hstored
  exact ⟨hvx.finite, hvy.finite, hvz.finite⟩

/-- Two samples a second apart, with the satellite's velocity left to estimate. -/
def sampleTrack : Proto.Olv2.TrackPacket :=
  { trackId := 9, points := [{ t := ⟨0x3FF0000000000000⟩ },
      { t := ⟨0x4000000000000000⟩, satPx := ⟨0x3FF0000000000000⟩ }] }

theorem sampleTrack_representable (store : StateStore) : Representable store sampleTrack where
  times := by
    have hshort : ∀ p ∈ sampleTrack.points, p.t.datum.toRat < 10 ^ 45 := by decide +kernel
    exact fun p hp => .inl (hshort p hp)
  velocity := by
    intro _ _ _
    unfold Estimable
    decide +kernel

def sampleRun : List Event := [.datagram { bytes := Proto.Olv2.encode sampleTrack }]

theorem sampleRun_shows : olv2InputSource.Along (fun s e => Shows s.memory s.store e)
    (olv2InputSource.start 15) sampleRun := by
  refine ⟨fun pkt hpkt => ?_, trivial⟩
  have hpacket : Proto.Olv2.packetAt (Proto.Olv2.encode sampleTrack) = sampleTrack := by
    decide +kernel
  obtain ⟨_, rfl, _⟩ := admitted_documented hpkt
  exact hpacket ▸ sampleTrack_representable _

theorem olv2_broadcast_read_sample :
    let s := (olv2InputSource.run (olv2InputSource.start 15) (sampleRun.take 1)).store
    ∃ m, NetParse.parseStateMessage (buildStateMessage (broadcastSnapshot s 0 1) 0 1) =
        .ok (.state m) ∧
      m.satellite = s.satellite.map shownSatellite ∧ (∀ sat ∈ m.satellite, FiniteVec sat.vel) ∧
      m.trailPoints = s.pendingTrail.map shownTrailPoint :=
  olv2_broadcast_read sampleRun_shows 1 0 0 1 1

/-! ## Packets that are not representable -/

/-- A sample at 1019035307462479449300915098613701940774699008 s, of 46 digits. -/
def longTime : Proto.Olv2.TrackPacket := { points := [{ t := ⟨0x4946D8F9CF1B7DFD⟩ }] }

/-- Two samples a subnormal step apart, the satellite 1 m further in the second. -/
def shortStep : Proto.Olv2.TrackPacket :=
  { points := [{ t := ⟨1⟩ }, { t := ⟨2⟩, satPx := ⟨0x3FF0000000000000⟩ }] }

/-- The message after one datagram. -/
def broadcastAfter (pkt : Proto.Olv2.TrackPacket) : List Char :=
  let s := (olv2InputSource.run (olv2InputSource.start 15)
    [.datagram { bytes := Proto.Olv2.encode pkt }]).store
  buildStateMessage (broadcastSnapshot s 0 1) 0 1

/-- The frontend rejects the broadcast of either. -/
theorem broadcastAfter_rejected :
    (¬ ∃ m, NetParse.parseStateMessage (broadcastAfter longTime) = .ok m) ∧
    ¬ ∃ m, NetParse.parseStateMessage (broadcastAfter shortStep) = .ok m := by
  have hlong : (NetParse.parseStateMessage (broadcastAfter longTime)).isOk = false := by
    decide +kernel
  have hshort : (NetParse.parseStateMessage (broadcastAfter shortStep)).isOk = false := by
    decide +kernel
  constructor
  · rintro ⟨m, hm⟩
    rw [hm] at hlong
    cases hlong
  · rintro ⟨m, hm⟩
    rw [hm] at hshort
    cases hshort

end Olv
