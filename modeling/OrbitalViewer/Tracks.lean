import OrbitalViewer.Lib.HighWater
import OrbitalViewer.ReceiveThread

/-!
# Tracks

What OLV2 accepts, and the state it leaves. A source's memory is a high-water
mark a track (`accepted_eq`), so what it accepts depends only on the order within
each track; the satellite is that of the accepted packet with the largest newest
time.
-/

namespace Olv.Olv2InputSource
open Proto.Olv2 (TrackPacket Point SoundPoints)
open Ieee (F64 Datum)

/-! ## What is accepted -/

/-- The packet of a datagram that decodes. -/
def received (d : Datagram) : Option TrackPacket :=
  if Proto.Olv2.verdict d.bytes = .kNone then some (Proto.Olv2.packetAt d.bytes) else none

/-- The packets accepted from a run of datagrams, in order. -/
def accepted (m : Memory) : List Datagram → List TrackPacket
  | [] => []
  | d :: ds => (admitted d m).toList ++ accepted (remember d m) ds

def oldestTime (pkt : TrackPacket) : ℚ := (pkt.points.headD {}).time

def newestTime (pkt : TrackPacket) : ℚ := (newest pkt).time

/-- The packets above the marks of their tracks. -/
def rising (mark : U32 → Option ℚ) (pkts : List TrackPacket) : List TrackPacket :=
  HighWater.passed TrackPacket.trackId oldestTime newestTime mark pkts

structure SoundTrack (pkt : TrackPacket) : Prop where
  points_ne : pkt.points ≠ []
  points : SoundPoints pkt.points

theorem received_sound {d : Datagram} {pkt : TrackPacket} (h : received d = some pkt) :
    SoundTrack pkt := by
  unfold received at h
  split at h
  · rename_i hv
    obtain rfl := Option.some.inj h
    have hd := (Proto.Olv2.verdict_iff d.bytes).mp hv
    exact ⟨Proto.Olv2.points_packetAt_ne hd, hd.sound⟩
  · cases h

theorem admitted_eq (d : Datagram) (m : Memory) :
    admitted d m = (received d).filter fun pkt => !isStale pkt m := by
  unfold admitted received
  by_cases hv : Proto.Olv2.verdict d.bytes = .kNone
  · rw [if_pos hv, Option.filter_some]
    cases hs : isStale (Proto.Olv2.packetAt d.bytes) m <;> simp [hv]
  · simp [hv]

namespace SoundTrack
variable {pkt : TrackPacket} (h : SoundTrack pkt)
include h

theorem oldest_mem : pkt.points.headD {} ∈ pkt.points := by
  cases hp : pkt.points with
  | nil => exact absurd hp h.points_ne
  | cons p ps => exact List.mem_cons_self

theorem le_newestTime : ∀ p ∈ pkt.points, p.time ≤ newestTime pkt := by
  intro p hp
  have hlast : pkt.points.getLast? = some (newest pkt) := by
    rw [newest, List.getLastD_eq_getLast?, List.getLast?_eq_some_getLast h.points_ne, Option.getD_some]
  obtain ⟨front, hfront⟩ := List.getLast?_eq_some_iff.mp hlast
  have hasc := h.points.ascending
  rw [hfront] at hp hasc
  rcases List.mem_append.mp hp with hp | hp
  · exact ((List.pairwise_append.mp hasc).2.2 p hp _ List.mem_cons_self).le
  · rw [List.mem_singleton.mp hp]
    rfl

theorem oldestTime_le : ∀ p ∈ pkt.points, oldestTime pkt ≤ p.time := by
  intro p hp
  have hasc := h.points.ascending
  unfold oldestTime
  cases hpts : pkt.points with
  | nil => exact absurd hpts h.points_ne
  | cons q qs =>
    rw [hpts] at hp hasc
    rcases List.mem_cons.mp hp with rfl | hp
    · exact le_refl _
    · exact ((List.pairwise_cons.mp hasc).1 p hp).le

theorem span : oldestTime pkt ≤ newestTime pkt := h.le_newestTime _ h.oldest_mem

end SoundTrack

/-- The memory is a mark a track. -/
structure Marks (m : Memory) (mark : U32 → Option ℚ) : Prop where
  time : ∀ id, (m.lastT.lookup id).map (fun t => t.datum.toRat) = mark id
  finite : ∀ id, ∀ t ∈ m.lastT.lookup id, t.datum.isFinite = true

theorem Marks.fresh_iff {m : Memory} {mark : U32 → Option ℚ} (h : Marks m mark) {pkt : TrackPacket}
    (hpkt : SoundTrack pkt) :
    isStale pkt m = false ↔ HighWater.Fresh TrackPacket.trackId oldestTime mark pkt := by
  unfold isStale HighWater.Fresh
  rw [← h.time]
  cases hl : m.lastT.lookup pkt.trackId with
  | none => simp
  | some last =>
    have hle := Datum.le_iff (hpkt.points.sound _ hpkt.oldest_mem).t (h.finite _ last hl)
    simp only [Option.map_some, Option.mem_def, Option.some.injEq, forall_eq']
    rw [Bool.eq_false_iff, ne_eq, hle, not_le]
    rfl

theorem Marks.raise {m : Memory} {mark : U32 → Option ℚ} (h : Marks m mark) {pkt : TrackPacket}
    (hpkt : SoundTrack pkt) (satId : Option U32) :
    Marks { lastT := m.lastT.insert pkt.trackId (newest pkt).t, lastSatId := satId }
      (HighWater.raise TrackPacket.trackId newestTime mark pkt) where
  time id := by
    by_cases hid : id = pkt.trackId
    · subst hid
      rw [AList.lookup_insert, HighWater.raise, Function.update_self]
      rfl
    · rw [AList.lookup_insert_ne hid, HighWater.raise, Function.update_of_ne hid]
      exact h.time id
  finite id t ht := by
    by_cases hid : id = pkt.trackId
    · subst hid
      rw [AList.lookup_insert] at ht
      exact Option.some.inj ht ▸ (hpkt.points.sound _ (newest_mem hpkt.points_ne)).t
    · rw [AList.lookup_insert_ne hid] at ht
      exact h.finite id t ht

/-- What the source remembers after a run of datagrams. -/
def remembered (m : Memory) (ds : List Datagram) : Memory := ds.foldl (fun m d => remember d m) m

theorem remembered_cons (m : Memory) (d : Datagram) (ds : List Datagram) :
    remembered m (d :: ds) = remembered (remember d m) ds := rfl

theorem remember_none {d : Datagram} {m : Memory} (h : admitted d m = none) : remember d m = m := by
  simp only [remember, h]

theorem remember_some {d : Datagram} {m : Memory} {pkt : TrackPacket} (h : admitted d m = some pkt) :
    remember d m =
      { lastT := m.lastT.insert pkt.trackId (newest pkt).t, lastSatId := some pkt.satId } := by
  simp only [remember, h]

/-- **The source accepts the rising packets** of each track. -/
theorem accepted_eq {m : Memory} {mark : U32 → Option ℚ} (h : Marks m mark) (ds : List Datagram) :
    accepted m ds = rising mark (ds.filterMap received) := by
  induction ds generalizing m mark with
  | nil => rfl
  | cons d ds ih =>
    have hadm := admitted_eq d m
    rw [accepted]
    cases hr : received d with
    | none =>
      rw [hr, Option.filter_none] at hadm
      rw [remember_none hadm, hadm, List.filterMap_cons_none hr]
      exact ih h
    | some pkt =>
      have hpkt := received_sound hr
      have hfresh := h.fresh_iff hpkt
      rw [hr, Option.filter_some] at hadm
      rw [List.filterMap_cons_some hr, rising, HighWater.passed]
      cases hs : isStale pkt m with
      | true =>
        have hnot := mt hfresh.mpr (by simp [hs])
        rw [hs] at hadm
        rw [if_neg hnot, remember_none hadm, hadm]
        exact ih h
      | false =>
        rw [hs] at hadm
        rw [if_pos (hfresh.mp hs), remember_some hadm, hadm]
        exact congrArg (pkt :: ·) (ih (h.raise hpkt (some pkt.satId)))

theorem marks_start : Marks {} fun _ => none := ⟨fun _ => rfl, by rintro _ _ ⟨⟩⟩

end Olv.Olv2InputSource

/-! ## What the store makes of it -/

namespace Olv.StateStore
open LastWrite (last)

def Call.track : Call → Option (TrackUpdate × Int)
  | applyTrack u _ mono => some (u, mono)
  | _ => none

/-- The track updates of a run, with their time stamps. -/
def tracks (calls : List Call) : List (TrackUpdate × Int) := calls.filterMap Call.track

theorem tracks_append (calls calls' : List Call) :
    tracks (calls ++ calls') = tracks calls ++ tracks calls' := List.filterMap_append

theorem tracks_idle {c : Call} (hc : c.track = none) : tracks [c] = [] := by
  rw [tracks, List.filterMap_cons, hc, List.filterMap_nil]

theorem tracks_updates (calls : List Call) : tracks (updates calls) = tracks calls := by
  rw [tracks, updates, List.filterMap_filter]
  apply List.filterMap_congr
  intro c _
  cases c <;> rfl

/-- No call of the run is an OLV1 packet. -/
def TracksOnly (calls : List Call) : Prop :=
  ∀ pkt wall mono, Call.apply pkt wall mono ∉ calls

theorem TracksOnly.append {calls calls' : List Call} :
    TracksOnly (calls ++ calls') ↔ TracksOnly calls ∧ TracksOnly calls' := by
  simp only [TracksOnly, List.mem_append, not_or, forall_and]

theorem TracksOnly.updates {calls : List Call} :
    TracksOnly (updates calls) ↔ TracksOnly calls := by
  simp [TracksOnly, StateStore.updates, Call.snapshotStamp]

/-- The satellite is that of the update with the largest time, the first of equals. -/
theorem run_satellite {calls : List Call} (h : TracksOnly calls) (expiry : Int)
    (hfinite : ∀ p ∈ tracks calls, p.1.satelliteT.datum.isFinite = true) :
    let newest := ((tracks calls).map Prod.fst).argmax fun u => u.satelliteT.datum.toRat
    (run { objectExpiry := expiry } calls).satellite = newest.map TrackUpdate.satellite ∧
    (run { objectExpiry := expiry } calls).satelliteT = newest.map TrackUpdate.satelliteT := by
  induction calls using List.reverseRecOn with
  | nil => exact ⟨rfl, rfl⟩
  | append_singleton calls c ih =>
    obtain ⟨hcalls, hc⟩ := TracksOnly.append.mp h
    rw [tracks_append] at hfinite ⊢
    obtain ⟨hsat, htime⟩ := ih hcalls fun p hp => hfinite p (List.mem_append_left _ hp)
    rw [run_append]
    cases c with
    | apply pkt wall mono => exact absurd List.mem_cons_self (hc pkt wall mono)
    | applyTrack u wall mono =>
      have hmem {u' : TrackUpdate}
          (hu' : u' ∈ ((tracks calls).map Prod.fst).argmax fun u => u.satelliteT.datum.toRat) :
          u'.satelliteT.datum.isFinite = true := by
        obtain ⟨p, hp, rfl⟩ := List.mem_map.mp (List.argmax_mem hu')
        exact hfinite p (List.mem_append_left _ hp)
      have hu : u.satelliteT.datum.isFinite = true :=
        hfinite (u, mono) (List.mem_append_right _ List.mem_cons_self)
      have happly : run (run { objectExpiry := expiry } calls) [.applyTrack u wall mono] =
          (run { objectExpiry := expiry } calls).applyTrack u wall mono := rfl
      have htrack : (tracks calls ++ tracks [.applyTrack u wall mono]).map Prod.fst =
          (tracks calls).map Prod.fst ++ [u] := by
        rw [List.map_append]
        rfl
      rw [happly, htrack]
      simp only [applyTrack, replacesSatellite, hsat, htime, List.argmax_concat]
      cases hbest : ((tracks calls).map Prod.fst).argmax fun u => u.satelliteT.datum.toRat with
      | none => exact ⟨rfl, rfl⟩
      | some best =>
        have hlt := Ieee.Datum.lt_iff (hmem hbest) hu
        simp only [Option.map_some]
        by_cases hnewer : best.satelliteT.datum.toRat < u.satelliteT.datum.toRat
        · simp [hlt.mpr hnewer, hnewer]
        · simp [mt hlt.mp hnewer, hnewer]
    | countDropped kind =>
      rw [tracks_idle rfl, List.append_nil]
      cases kind <;> exact ⟨hsat, htime⟩
    | _ =>
      rw [tracks_idle rfl, List.append_nil]
      exact ⟨hsat, htime⟩

/-- A run of track updates writes one row an update. -/
theorem history_tracks {calls : List Call} (h : TracksOnly calls) (s : StateStore) :
    history s calls = (tracks calls).map fun p => (p.1.target.id, ⟨p.1.target, p.2⟩) := by
  induction calls generalizing s with
  | nil => rfl
  | cons c calls ih =>
    have hrest : TracksOnly calls := fun pkt wall mono hmem =>
      h pkt wall mono (List.mem_cons_of_mem c hmem)
    rw [history, ih hrest]
    cases c with
    | apply pkt wall mono => exact absurd List.mem_cons_self (h pkt wall mono)
    | _ => rfl

end Olv.StateStore

/-! ## Runs -/

namespace Olv.Olv2InputSource
open Proto.Olv2 (TrackPacket Point)
open Ieee (F32 F64)
open StateStore (tracks TracksOnly table history)
open LastWrite (last)

/-- The state of both threads in OLV2 mode, from a fresh store. -/
def world (expiry : Int) (actions : List Action) : World olv2InputSource :=
  (World.start olv2InputSource expiry).run olv2Sections actions

theorem world_recorded (expiry : Int) (actions : List Action) :
    World.Recorded olv2Sections expiry (world expiry actions) := World.run_recorded expiry actions

/-- The packets accepted so far. -/
def acceptedIn (w : World olv2InputSource) : List TrackPacket := accepted {} w.settled

/-- The packets that decoded so far. -/
def receivedIn (w : World olv2InputSource) : List TrackPacket := w.settled.filterMap received

def lastOf (id : U32) (pkts : List TrackPacket) : Option TrackPacket :=
  (pkts.filter (·.trackId = id)).getLast?

theorem sectionCalls_tracks (m : Memory) (ds : List Datagram) :
    TracksOnly (World.sectionCalls olv2Sections m ds) ∧
    (tracks (World.sectionCalls olv2Sections m ds)).map Prod.fst = (accepted m ds).map updateOf := by
  induction ds generalizing m with
  | nil => exact ⟨fun _ _ _ => List.not_mem_nil, rfl⟩
  | cons d ds ih =>
    obtain ⟨honly, htracks⟩ := ih (remember d m)
    have hcalls : World.sectionCalls olv2Sections m (d :: ds) = .countReceived d.bytes.length ::
        outcome d m :: World.sectionCalls olv2Sections (remember d m) ds := rfl
    rw [hcalls, accepted, List.map_append, ← htracks, outcome]
    cases admitted d m with
    | none => exact ⟨fun pkt wall mono h => by simp [honly pkt wall mono] at h, rfl⟩
    | some pkt => exact ⟨fun pkt wall mono h => by simp [honly pkt wall mono] at h, rfl⟩

/-- The store's calls, read as the accepted packets. -/
theorem world_tracks (expiry : Int) (actions : List Action) :
    TracksOnly (world expiry actions).calls ∧
    (tracks (world expiry actions).calls).map Prod.fst =
      (acceptedIn (world expiry actions)).map updateOf := by
  have hrec := world_recorded expiry actions
  obtain ⟨honly, htracks⟩ := sectionCalls_tracks {} (world expiry actions).settled
  have hpending : TracksOnly ((world expiry actions).pending.toList.map fun d =>
      StateStore.Call.countReceived d.bytes.length) ∧
      tracks ((world expiry actions).pending.toList.map fun d =>
        StateStore.Call.countReceived d.bytes.length) = [] := by
    cases (world expiry actions).pending with
    | none => exact ⟨fun _ _ _ => List.not_mem_nil, rfl⟩
    | some d => exact ⟨fun _ _ _ h => by simp at h, rfl⟩
  constructor
  · rw [← TracksOnly.updates, hrec.updates, TracksOnly.append]
    exact ⟨honly, hpending.1⟩
  · rw [← StateStore.tracks_updates, hrec.updates, StateStore.tracks_append]
    exact (congrArg (List.map Prod.fst) (congrArg _ hpending.2)).trans
      ((congrArg _ (List.append_nil _)).trans htracks)

theorem acceptedIn_eq (w : World olv2InputSource) :
    acceptedIn w = rising (fun _ => none) (receivedIn w) := accepted_eq marks_start w.settled

theorem receivedIn_sound {w : World olv2InputSource} : ∀ pkt ∈ receivedIn w, SoundTrack pkt := by
  intro pkt hpkt
  obtain ⟨d, _, hd⟩ := List.mem_filterMap.mp hpkt
  exact received_sound hd

theorem acceptedIn_sound {w : World olv2InputSource} : ∀ pkt ∈ acceptedIn w, SoundTrack pkt := by
  intro pkt hpkt
  rw [acceptedIn_eq] at hpkt
  exact receivedIn_sound pkt ((HighWater.passed_sublist _ _).subset hpkt)

/-- Of two accepted packets of a track the second lies wholly above the first. -/
theorem acceptedIn_pairwise (w : World olv2InputSource) :
    (acceptedIn w).Pairwise fun x y => x.trackId = y.trackId → newestTime x < oldestTime y := by
  rw [acceptedIn_eq]
  exact HighWater.passed_pairwise _ fun pkt hpkt => (receivedIn_sound pkt hpkt).span

theorem lastOf_mem {id : U32} {pkts : List TrackPacket} {pkt : TrackPacket}
    (h : lastOf id pkts = some pkt) : pkt ∈ pkts ∧ pkt.trackId = id := by
  obtain ⟨hmem, hid⟩ := List.mem_filter.mp (List.mem_of_getLast? h)
  exact ⟨hmem, of_decide_eq_true hid⟩

/-- The last accepted packet of a track has the largest time accepted for it. -/
theorem le_lastOf {w : World olv2InputSource} {id : U32} {pkt : TrackPacket}
    (h : lastOf id (acceptedIn w) = some pkt) {other : TrackPacket} (hmem : other ∈ acceptedIn w)
    (hid : other.trackId = id) : newestTime other ≤ newestTime pkt := by
  subst hid
  rw [acceptedIn_eq] at h hmem
  exact HighWater.le_last (fun pkt hpkt => (receivedIn_sound pkt hpkt).span) hmem h

/-- The row last written for a track is that of its last accepted packet. -/
theorem last_row (expiry : Int) (actions : List Action) (id : U32) :
    (last (history { objectExpiry := expiry } (world expiry actions).calls) id).map
        StoredObject.obj =
      (lastOf id (acceptedIn (world expiry actions))).map targetOf := by
  obtain ⟨honly, htracks⟩ := world_tracks expiry actions
  have hrows : (last (history { objectExpiry := expiry } (world expiry actions).calls) id).map
      StoredObject.obj = ((((tracks (world expiry actions).calls).map Prod.fst).filter
        fun u => u.target.id = id).map TrackUpdate.target).getLast? := by
    rw [StateStore.history_tracks honly, last, ← List.getLast?_map]
    simp [List.filter_map, Function.comp_def]
  have hid (pkt : TrackPacket) : (targetOf pkt).id = pkt.trackId := rfl
  have htarget (pkt : TrackPacket) : (updateOf pkt).target = targetOf pkt := rfl
  rw [hrows, htracks, lastOf, ← List.getLast?_map]
  simp only [List.filter_map, List.map_map, Function.comp_def, hid, htarget]

theorem lastOf_cons (id : U32) (pkt : TrackPacket) (pkts : List TrackPacket) :
    lastOf id (pkt :: pkts) =
      (lastOf id pkts).or (if pkt.trackId = id then some pkt else none) := by
  unfold lastOf
  by_cases hid : pkt.trackId = id
  · rw [List.filter_cons_of_pos (by simpa using hid), List.getLast?_cons, if_pos hid]
    cases (pkts.filter (·.trackId = id)).getLast? <;> rfl
  · rw [List.filter_cons_of_neg (by simpa using hid), if_neg hid, Option.or_none]

/-- The time kept for a track is that of its last accepted packet. -/
theorem remembered_lastT (m : Memory) (ds : List Datagram) (id : U32) :
    (remembered m ds).lastT.lookup id =
      ((lastOf id (accepted m ds)).map fun pkt => (newest pkt).t).or (m.lastT.lookup id) := by
  induction ds generalizing m with
  | nil => rfl
  | cons d ds ih =>
    rw [remembered_cons, ih, accepted]
    cases hadm : admitted d m with
    | none =>
      rw [remember_none hadm]
      rfl
    | some pkt =>
      rw [remember_some hadm, Option.toList_some, List.singleton_append, lastOf_cons]
      by_cases hid : pkt.trackId = id
      · subst hid
        rw [AList.lookup_insert, if_pos rfl]
        cases lastOf pkt.trackId (accepted _ ds) <;> rfl
      · rw [AList.lookup_insert_ne (Ne.symm hid), if_neg hid, Option.or_none]

/-! ## The state is a function of the accepted packets -/

theorem argmax_map {α β : Type} (f : α → β) (g : β → ℚ) (xs : List α) :
    (xs.map f).argmax g = (xs.argmax (g ∘ f)).map f := by
  induction xs using List.reverseRecOn with
  | nil => rfl
  | append_singleton xs x ih =>
    rw [List.map_append, List.map_singleton, List.argmax_concat, List.argmax_concat, ih]
    cases xs.argmax (g ∘ f) with
    | none => rfl
    | some best =>
      simp only [Option.map_some, Function.comp_apply]
      split <;> rfl

/-- The accepted packet with the largest newest time, the first of equals. -/
def newestTrack (w : World olv2InputSource) : Option TrackPacket := (acceptedIn w).argmax newestTime

/-- The row of a track: where its newest point is, with a velocity if that point has
one. -/
def trackRow (pkt : TrackPacket) : SnapshotObject where
  id := pkt.trackId
  type := pkt.targetType
  flags := (pkt.targetFlags &&& Proto.kFlagHighlight) |||
    if (newest pkt).tgtHasVelocity then Proto.kFlagHasVelocity else 0
  confidence := pkt.confidence
  px := (newest pkt).tgtPx
  py := (newest pkt).tgtPy
  pz := (newest pkt).tgtPz
  vx := if (newest pkt).tgtHasVelocity then (newest pkt).tgtVx else ⟨0⟩
  vy := if (newest pkt).tgtHasVelocity then (newest pkt).tgtVy else ⟨0⟩
  vz := if (newest pkt).tgtHasVelocity then (newest pkt).tgtVz else ⟨0⟩

/-- One axis of a satellite's velocity by its points, newest first: as sent, else from
the last two. -/
def velocityAlong (position : Point → F64) (velocity : Point → F32) : List Point → F32
  | [] => ⟨0⟩
  | [p] => if p.satHasVelocity then velocity p else ⟨0⟩
  | p :: q :: _ =>
    if p.satHasVelocity then velocity p
    else (((position p).sub (position q)).div (p.t.sub q.t)).narrow

/-- The satellite of a track. -/
def trackSatellite (pkt : TrackPacket) : SatelliteState where
  id := pkt.satId
  seq := pkt.sequence
  px := (newest pkt).satPx
  py := (newest pkt).satPy
  pz := (newest pkt).satPz
  vx := velocityAlong Point.satPx Point.satVx pkt.points.reverse
  vy := velocityAlong Point.satPy Point.satVy pkt.points.reverse
  vz := velocityAlong Point.satPz Point.satVz pkt.points.reverse

theorem targetOf_eq : targetOf = trackRow := rfl

theorem satelliteOf_eq : satelliteOf = trackSatellite := by
  funext pkt
  unfold satelliteOf trackSatellite newest
  rcases List.eq_nil_or_concat' pkt.points with hnone | ⟨front, p, hlast⟩
  · rw [hnone]
    rfl
  rcases List.eq_nil_or_concat' front with rfl | ⟨rest, q, rfl⟩
  · rw [hlast]
    cases hsent : p.satHasVelocity <;> simp [hsent, velocityAlong]
  · rw [hlast]
    cases hsent : p.satHasVelocity <;> simp [hsent, velocityAlong, differenceVelocity]

/-- The memory and the store against the accepted packets. -/
structure PerTrack (expiry : Int) (w : World olv2InputSource) : Prop where
  lastT : ∀ id, (w.memory : Memory).lastT.lookup id =
    (lastOf id (acceptedIn w)).map fun pkt => (newest pkt).t
  largest : ∀ id, ∀ pkt ∈ lastOf id (acceptedIn w), IsGreatest
    {t | ∃ other ∈ acceptedIn w, other.trackId = id ∧ ∃ p ∈ other.points, p.time = t}
    (newestTime pkt)
  row : ∀ id, ∀ o ∈ table w.store.objects id,
    ∃ pkt, lastOf id (acceptedIn w) = some pkt ∧ o.obj = trackRow pkt
  expired : ∀ id, table w.store.objects id = none → lastOf id (acceptedIn w) = none ∨
    ∃ m ∈ StateStore.snapshotStamps w.calls,
      ∃ o ∈ last (history { objectExpiry := expiry } w.calls) id, m - o.lastUpdate > seconds expiry
  satellite : w.store.satellite = (newestTrack w).map trackSatellite
  satelliteT : w.store.satelliteT = (newestTrack w).map fun pkt => (newest pkt).t

theorem world_perTrack (expiry : Int) (actions : List Action) :
    PerTrack expiry (world expiry actions) := by
  have hrec := world_recorded expiry actions
  obtain ⟨honly, htracks⟩ := world_tracks expiry actions
  have hfinite : ∀ p ∈ tracks (world expiry actions).calls, p.1.satelliteT.datum.isFinite = true := by
    intro p hp
    have hmem : p.1 ∈ (acceptedIn (world expiry actions)).map updateOf :=
      htracks ▸ List.mem_map_of_mem hp
    obtain ⟨pkt, hpkt, hu⟩ := List.mem_map.mp hmem
    have hsound := acceptedIn_sound pkt hpkt
    exact hu ▸ (hsound.points.sound _ (newest_mem hsound.points_ne)).t
  obtain ⟨hsat, htime⟩ := StateStore.run_satellite honly expiry hfinite
  rw [htracks, argmax_map, Option.map_map, ← hrec.store] at hsat htime
  have htable := StateStore.table_run expiry (world expiry actions).calls
  simp only [← hrec.store, StateStore.lastWrite] at htable
  have hrow := last_row expiry actions
  refine ⟨fun id => ?lastT, fun id pkt hpkt => ?largest, fun id o ho => ?row, fun id hnone => ?expired,
    ?satellite, htime⟩
  case lastT =>
    rw [hrec.memory]
    exact (remembered_lastT {} _ id).trans (Option.or_none)
  case largest =>
    obtain ⟨hmem, hid⟩ := lastOf_mem hpkt
    refine ⟨⟨pkt, hmem, hid, newest pkt, newest_mem (acceptedIn_sound pkt hmem).points_ne, rfl⟩, ?_⟩
    rintro t ⟨other, hother, hoid, p, hp, rfl⟩
    exact ((acceptedIn_sound other hother).le_newestTime p hp).trans (le_lastOf hpkt hother hoid)
  case row =>
    rcases htable id with h | ⟨h, _⟩
    · have hlast := hrow id
      rw [← h, ho] at hlast
      obtain ⟨pkt, hpkt, hobj⟩ := Option.map_eq_some_iff.mp hlast.symm
      exact ⟨pkt, hpkt, hobj.symm.trans (congrFun targetOf_eq pkt)⟩
    · exact absurd (h.symm.trans ho) (Option.some_ne_none o).symm
  case expired =>
    rcases htable id with h | ⟨_, o, ho, m, hm, hdead⟩
    · have hlast := hrow id
      rw [← h, hnone] at hlast
      exact .inl (Option.map_eq_none_iff.mp hlast.symm)
    · exact .inr ⟨m, hm, o, ho, hdead⟩
  case satellite =>
    rw [← satelliteOf_eq]
    exact hsat

theorem accepted_append (m : Memory) (ds ds' : List Datagram) :
    accepted m (ds ++ ds') = accepted m ds ++ accepted (remembered m ds) ds' := by
  induction ds generalizing m with
  | nil => rfl
  | cons d ds ih => rw [List.cons_append, accepted, accepted, ih, List.append_assoc, remembered_cons]

theorem acceptedIn_step (w : World olv2InputSource) (a : Action) :
    acceptedIn w ⊆ acceptedIn (w.step olv2Sections a) := by
  intro pkt hpkt
  rcases World.step_cases olv2Sections a w with h | ⟨_, _, _, h⟩ | ⟨d, _, _, h⟩ | ⟨_, _, h⟩
  · rw [h]
    exact hpkt
  · rw [h]
    exact hpkt
  · rw [h, acceptedIn, accepted_append]
    exact List.mem_append_left _ hpkt
  · rw [h]
    exact hpkt

/-- The streams of both worlds are the same track by track. -/
def SameStreams (w w' : World olv2InputSource) : Prop :=
  ∀ id, (receivedIn w).filter (·.trackId = id) = (receivedIn w').filter (·.trackId = id)

/-- No two tracks have the same newest time. -/
def NewestDiffer (w : World olv2InputSource) : Prop :=
  ∀ id id', id ≠ id' → ∀ t ∈ (w.memory : Memory).lastT.lookup id,
    ∀ t' ∈ (w.memory : Memory).lastT.lookup id', t.datum.toRat ≠ t'.datum.toRat

theorem SameStreams.accepted {w w' : World olv2InputSource} (h : SameStreams w w') (id : U32) :
    (acceptedIn w).filter (·.trackId = id) = (acceptedIn w').filter (·.trackId = id) := by
  rw [acceptedIn_eq, acceptedIn_eq, rising, rising, HighWater.passed_filter, HighWater.passed_filter,
    h id]

/-- The newest accepted packet is the last of its track. -/
theorem lastOf_newestTrack {w : World olv2InputSource} {pkt : TrackPacket}
    (h : newestTrack w = some pkt) : lastOf pkt.trackId (acceptedIn w) = some pkt := by
  have hmem : pkt ∈ acceptedIn w := List.argmax_mem h
  have hne : (acceptedIn w).filter (·.trackId = pkt.trackId) ≠ [] :=
    List.ne_nil_of_mem (List.mem_filter.mpr ⟨hmem, by simp⟩)
  obtain ⟨top, htop⟩ := Option.isSome_iff_exists.mp (List.getLast?_isSome.mpr hne)
  obtain ⟨htopmem, htopid⟩ := lastOf_mem htop
  have hdistinct : (acceptedIn w).Pairwise fun x y =>
      x.trackId = y.trackId → newestTime x ≠ newestTime y := by
    refine (acceptedIn_pairwise w).imp_of_mem fun {x y} _ hy hlt hid => ?_
    exact ((hlt hid).trans_le (acceptedIn_sound y hy).span).ne
  have hle := le_lastOf htop hmem rfl
  have hge := List.le_of_mem_argmax htopmem h
  by_contra hnot
  have hneq : pkt ≠ top := fun heq => hnot (htop.trans (congrArg some heq.symm))
  have hsymm : Std.Symm fun x y : TrackPacket =>
      x.trackId = y.trackId → newestTime x ≠ newestTime y :=
    ⟨fun x y hxy hid => (hxy hid.symm).symm⟩
  exact hdistinct.forall hmem htopmem hneq htopid.symm (hle.antisymm hge)

theorem newestTrack_congr {expiry : Int} {w w' : World olv2InputSource}
    (hw : PerTrack expiry w) (h : SameStreams w w') (hdiffer : NewestDiffer w) :
    newestTrack w = newestTrack w' := by
  have hperm := HighWater.perm_of_filter h.accepted
  have hlast (id : U32) : lastOf id (acceptedIn w) = lastOf id (acceptedIn w') :=
    congrArg List.getLast? (h.accepted id)
  cases hn : newestTrack w with
  | none =>
    have hnil : acceptedIn w' = [] :=
      List.Perm.eq_nil ((List.argmax_eq_none.mp hn) ▸ hperm).symm
    exact (List.argmax_eq_none.mpr hnil).symm
  | some pkt =>
    have hmem : pkt ∈ acceptedIn w := List.argmax_mem hn
    obtain ⟨pkt', hn'⟩ : ∃ pkt', newestTrack w' = some pkt' := by
      apply Option.ne_none_iff_exists'.mp
      intro hnone
      exact List.ne_nil_of_mem (hperm.mem_iff.mp hmem) (List.argmax_eq_none.mp hnone)
    have hmem' : pkt' ∈ acceptedIn w' := List.argmax_mem hn'
    have htimes : newestTime pkt = newestTime pkt' :=
      (List.le_of_mem_argmax (hperm.mem_iff.mp hmem) hn').antisymm
        (List.le_of_mem_argmax (hperm.mem_iff.mpr hmem') hn)
    have hpkt := lastOf_newestTrack hn
    have hpkt' := (hlast _).trans (lastOf_newestTrack hn')
    by_cases hid : pkt.trackId = pkt'.trackId
    · rw [hn', ← hpkt, ← hpkt', hid]
    · have ht : (newest pkt).t ∈ (w.memory : Memory).lastT.lookup pkt.trackId := by
        rw [hw.lastT, hpkt]
        rfl
      have ht' : (newest pkt').t ∈ (w.memory : Memory).lastT.lookup pkt'.trackId := by
        rw [hw.lastT, hpkt']
        rfl
      exact absurd htimes (hdiffer _ _ hid _ ht _ ht')

/-- The time of the stored satellite never goes back. -/
theorem satelliteT_mono (expiry : Int) (actions : List Action) (a : Action) :
    let w := world expiry actions
    ∀ t ∈ w.store.satelliteT, ∃ t' ∈ (w.step olv2Sections a).store.satelliteT,
      t.datum.toRat ≤ t'.datum.toRat := by
  intro w t ht
  have hstep : w.step olv2Sections a = world expiry (actions ++ [a]) := by
    simp [w, world, World.run]
  rw [hstep, (world_perTrack expiry (actions ++ [a])).satelliteT]
  rw [(world_perTrack expiry actions).satelliteT] at ht
  obtain ⟨pkt, hpkt, rfl⟩ := Option.map_eq_some_iff.mp ht
  have hmem : pkt ∈ acceptedIn (world expiry (actions ++ [a])) :=
    hstep ▸ acceptedIn_step _ a (List.argmax_mem hpkt)
  obtain ⟨top, htop⟩ : ∃ top, newestTrack (world expiry (actions ++ [a])) = some top :=
    Option.ne_none_iff_exists'.mp fun hnone =>
      List.ne_nil_of_mem hmem (List.argmax_eq_none.mp hnone)
  have hle : newestTime pkt ≤ newestTime top := List.le_of_mem_argmax hmem htop
  exact ⟨(newest top).t, by rw [htop]; rfl, hle⟩

/-- Without snapshots every track has its row. -/
theorem PerTrack.row_eq {expiry : Int} {w : World olv2InputSource} (h : PerTrack expiry w)
    (hs : StateStore.snapshotStamps w.calls = []) (id : U32) :
    (table w.store.objects id).map StoredObject.obj = (lastOf id (acceptedIn w)).map trackRow := by
  cases ho : table w.store.objects id with
  | none =>
    rcases h.expired id ho with hnone | ⟨m, hm, _⟩
    · rw [hnone]
      rfl
    · rw [hs] at hm
      cases hm
  | some o =>
    obtain ⟨pkt, hpkt, hobj⟩ := h.row id o ho
    rw [hpkt, Option.map_some, hobj]
    rfl

/-- **OLV2 state depends only on the order within each track** and never moves
backwards. -/
theorem state_per_track (expiry : Int) (actions : List Action) :
    let w := world expiry actions
    PerTrack expiry w ∧
    (∀ a, ∀ t ∈ w.store.satelliteT,
      ∃ t' ∈ (w.step olv2Sections a).store.satelliteT, t.datum.toRat ≤ t'.datum.toRat) ∧
    ∀ expiry' actions', let w' := world expiry' actions'
      SameStreams w w' →
      (∀ id, (acceptedIn w).filter (·.trackId = id) = (acceptedIn w').filter (·.trackId = id)) ∧
      (acceptedIn w).Perm (acceptedIn w') ∧
      (∀ id, ∀ o ∈ table w.store.objects id, ∀ o' ∈ table w'.store.objects id, o.obj = o'.obj) ∧
      (StateStore.snapshotStamps w.calls = [] → StateStore.snapshotStamps w'.calls = [] →
        ∀ id, (table w.store.objects id).map StoredObject.obj =
          (table w'.store.objects id).map StoredObject.obj) ∧
      (NewestDiffer w → w.store.satellite = w'.store.satellite) := by
  have hw := world_perTrack expiry actions
  refine ⟨hw, satelliteT_mono expiry actions, fun expiry' actions' h => ?_⟩
  have hw' := world_perTrack expiry' actions'
  have hlast (id : U32) : lastOf id (acceptedIn (world expiry actions)) =
      lastOf id (acceptedIn (world expiry' actions')) := congrArg List.getLast? (h.accepted id)
  refine ⟨h.accepted, HighWater.perm_of_filter h.accepted, fun id o ho o' ho' => ?present,
    fun hs hs' id => ?rows, fun hdiffer => ?satellite⟩
  case present =>
    obtain ⟨pkt, hpkt, hobj⟩ := hw.row id o ho
    obtain ⟨pkt', hpkt', hobj'⟩ := hw'.row id o' ho'
    obtain rfl := Option.some.inj (hpkt.symm.trans ((hlast id).trans hpkt'))
    exact hobj.trans hobj'.symm
  case rows =>
    rw [hw.row_eq hs, hw'.row_eq hs', hlast]
  case satellite =>
    rw [hw.satellite, hw'.satellite, newestTrack_congr hw h hdiffer]

end Olv.Olv2InputSource
