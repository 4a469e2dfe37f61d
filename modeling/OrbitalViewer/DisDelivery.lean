import OrbitalViewer.DisStaleness
import OrbitalViewer.DisTicks
import OrbitalViewer.DisTranslation

/-!
# A DIS run at the backend

What the simulator sends of its frames in DIS mode, and what the backend makes of as much
of it as gets through. It drops nothing, unless an entity is silent for half an hour, and
shows the objects as far as DIS carries them (`dis_delivery`).
-/

namespace Olv.Sim
open Wire (Byte)
open Ieee (F64)
open Proto (ObjectRecord ObjectType byteAt)
open DisInputSource (EntityStatePdu)

/-! ## What a run sends -/

/-- An entity in a cycle of the loop: the satellite or an object of the frame. -/
structure DisItem where
  cycle : ℕ
  isSat : Bool
  record : ObjectRecord
  deriving DecidableEq

def itemsOf (frame : Frame) (cycle : ℕ) : List DisItem :=
  ⟨cycle, true, frame.sat⟩ :: frame.objects.map fun rec => ⟨cycle, false, rec⟩

def runItems (frames : List Frame) : List DisItem :=
  frames.zipIdx.flatMap fun e => itemsOf e.1 e.2

def DisItem.time (rateHz : F64) (e : DisItem) : F64 := (F64.ofNat e.cycle).div rateHz

/-- The PDU under an entity id. -/
def pduOf (site application entity : U16) (kind domain : U8) (rec : ObjectRecord) :
    EntityStatePdu where
  site
  application
  entity
  kind
  domain
  x := rec.px
  y := rec.py
  z := rec.pz
  vx := rec.vx
  vy := rec.vy
  vz := rec.vz

section Items
variable (emit : DisEmitConfig) (rateHz : F64)

def DisItem.pdu (e : DisItem) : EntityStatePdu :=
  if e.isSat then pduOf emit.satSite emit.satApplication emit.satEntity 1 5 e.record
  else pduOf emit.site ((e.record.id >>> 16).setWidth 16) ((e.record.id &&& 0xFFFF).setWidth 16)
    (mapEntityType e.record.type).1 (mapEntityType e.record.type).2 e.record

def DisItem.out (e : DisItem) : OutPdu where
  exerciseId := emit.exerciseId
  timestamp := timestampOf (e.time rateHz)
  pdu := e.pdu emit

/-- The items of a run are what is sent of it. -/
theorem sentInDis_eq (marshal : OutPdu → List Byte) (frames : List Frame) :
    sentInDis marshal emit rateHz frames =
      (runItems frames).map fun e => marshal (e.out emit rateHz) := by
  rw [sentInDis, runItems, List.map_flatMap]
  refine List.flatMap_congr fun e _ => ?_
  rw [itemsOf, List.map_cons, List.map_map]
  rfl

/-- The entity and the ticks of a PDU. -/
def DisItem.stamped (e : DisItem) : DisInputSource.Pdu :=
  ⟨DisInputSource.packed (e.pdu emit), ticksOf (e.time rateHz)⟩

/-- The item of the same entity that was delivered last. -/
def latestItem (before : List DisItem) (e : DisItem) : Option DisItem :=
  (before.filter fun q => DisInputSource.packed (q.pdu emit) = DisInputSource.packed (e.pdu emit)).getLast?

/-- Two deliveries of an entity in a row are at most 1799 seconds apart. -/
def Spaced (items : List DisItem) : Prop :=
  Prefixes.Each (fun before e => ∀ q ∈ latestItem emit before e,
    (e.time rateHz).datum.toRat - (q.time rateHz).datum.toRat ≤ 1799) items

end Items

theorem mem_itemsOf {frame : Frame} {cycle : ℕ} {e : DisItem} (h : e ∈ itemsOf frame cycle) :
    e.cycle = cycle := by
  rcases List.mem_cons.mp h with rfl | hobject
  · rfl
  · obtain ⟨rec, _, rfl⟩ := List.mem_map.mp hobject
    rfl

/-- Cycle after cycle. -/
theorem runItems_ascending (frames : List Frame) :
    (runItems frames).Pairwise fun e e' => e.cycle ≤ e'.cycle := by
  suffices hfrom : ∀ k, ((frames.zipIdx k).flatMap fun e => itemsOf e.1 e.2).Pairwise
      fun e e' => e.cycle ≤ e'.cycle from hfrom 0
  induction frames with
  | nil => exact fun _ => List.Pairwise.nil
  | cons frame frames ih =>
    intro k
    rw [List.zipIdx_cons, List.flatMap_cons, List.pairwise_append]
    refine ⟨List.Pairwise.imp_of_mem (fun he he' _ => ?_) (List.pairwise_of_forall fun _ _ => trivial),
      ih (k + 1), fun e he e' he' => ?_⟩
    · exact (mem_itemsOf he).trans_le (mem_itemsOf he').ge
    · obtain ⟨later, hlater, hmem⟩ := List.mem_flatMap.mp he'
      rw [mem_itemsOf he, mem_itemsOf hmem]
      have := (List.mem_zipIdx_iff_le_and_getElem?_sub.mp hlater).1
      omega

/-! ## At the DIS source -/

/-- The library reads back the PDUs that it wrote. -/
structure Interoperates (marshal : OutPdu → List Byte)
    (unmarshal : List Byte → Option EntityStatePdu) : Prop where
  length : ∀ out, DisInputSource.kDisHeaderSize ≤ (marshal out).length
  version : ∀ out, byteAt (marshal out) 0 = 6
  exerciseId : ∀ out, byteAt (marshal out) 1 = out.exerciseId
  pduType : ∀ out, byteAt (marshal out) 2 = DisInputSource.kEntityStatePduType
  timestamp : ∀ out, DisInputSource.beU32 (marshal out) 4 = out.timestamp
  body : ∀ out, unmarshal (marshal out) = some out.pdu

/-- The backend listens to what the simulator sends. -/
structure Configured (emit : DisEmitConfig) (cfg : DisInputSource.Config) : Prop where
  exerciseId : ∀ id ∈ cfg.exerciseId, id = emit.exerciseId
  satellite : cfg.satellite = emit.satellite

section Source
variable {marshal : OutPdu → List Byte} {unmarshal : List Byte → Option EntityStatePdu}
  {emit : DisEmitConfig} {cfg : DisInputSource.Config} {rateHz : F64} {items : List DisItem}

/-- The times of what is delivered are finite and those of one rate. -/
structure Clocked (rateHz : F64) (items : List DisItem) : Prop where
  rate : rateHz.datum.isFinite = true
  positive : 0 < rateHz.datum.toRat
  finite : ∀ e ∈ items, (e.time rateHz).datum.isFinite = true

theorem headerPasses_marshal (h : Interoperates marshal unmarshal) (hcfg : Configured emit cfg)
    (e : DisItem) : DisInputSource.headerPasses cfg (marshal (e.out emit rateHz)) = true := by
  rw [DisInputSource.headerPasses_iff, h.version, h.exerciseId, h.pduType]
  refine ⟨not_lt.mpr (h.length _), by decide, ?_, not_not.mpr rfl⟩
  cases hid : cfg.exerciseId with
  | none => exact Bool.false_ne_true
  | some id =>
    have hsame := hcfg.exerciseId id hid
    simp [hsame, DisItem.out]

/-- What is delivered, as the staleness test takes it. -/
theorem items_inOrder (hclock : Clocked rateHz items)
    (hasc : items.Pairwise fun e e' => e.cycle ≤ e'.cycle) (hspaced : Spaced emit rateHz items) :
    DisInputSource.InOrder (items.map (DisItem.stamped emit rateHz)) := by
  rintro before p later hsplit q hq
  obtain ⟨front, rest, rfl, rfl, hrest⟩ := List.map_eq_append_iff.mp hsplit
  obtain ⟨e, tail, rfl, rfl, rfl⟩ := List.map_eq_cons_iff.mp hrest
  have hlatest : DisInputSource.latest (front.map (DisItem.stamped emit rateHz))
      (e.stamped emit rateHz).entity = (latestItem emit front e).map (DisItem.stamped emit rateHz) := by
    rw [DisInputSource.latest, List.filter_map, List.getLast?_map]
    rfl
  rw [hlatest] at hq
  obtain ⟨earlier, hearlier, rfl⟩ := Option.map_eq_some_iff.mp hq
  have hmem : earlier ∈ front := List.mem_of_mem_filter (List.mem_of_getLast? hearlier)
  have hcycles : earlier.cycle ≤ e.cycle :=
    (List.pairwise_append.mp hasc).2.2 earlier hmem e List.mem_cons_self
  have htimes : (earlier.time rateHz).datum.toRat ≤ (e.time rateHz).datum.toRat :=
    F64.ofNat_div_mono hcycles (F64.is_value hclock.rate) hclock.positive
      (hclock.finite earlier (List.mem_append_left _ hmem))
      (hclock.finite e (List.mem_append_right _ List.mem_cons_self))
  obtain ⟨hmono, hgrow⟩ := ticksOf_mono htimes
  exact ⟨hmono, hgrow (hspaced front e tail rfl earlier hearlier)⟩

/-- Datagrams in order are all let through. -/
theorem accepted_items (h : Interoperates marshal unmarshal) (hcfg : Configured emit cfg)
    (before : List DisItem)
    (horder : DisInputSource.InOrder ((before ++ items).map (DisItem.stamped emit rateHz)))
    {m : DisInputSource.Memory}
    (hm : m.lastTs = (DisInputSource.judged (before.map (DisItem.stamped emit rateHz))).lastTs)
    {ds : List Datagram}
    (hds : ds.map Datagram.bytes = items.map fun e => marshal (e.out emit rateHz)) :
    DisInputSource.accepted unmarshal cfg m ds = items.map (DisItem.pdu emit) := by
  induction items generalizing before m ds with
  | nil =>
    obtain rfl := List.map_eq_nil_iff.mp hds
    rfl
  | cons e items ih =>
    cases ds with
    | nil => cases hds
    | cons d ds =>
      rw [List.map_cons, List.map_cons, List.cons.injEq] at hds
      have horder' : DisInputSource.InOrder (((before ++ [e]) ++ items).map
          (DisItem.stamped emit rateHz)) := by
        rwa [List.append_assoc]
      have hstep := horder
      rw [List.map_append, List.map_cons, List.append_cons] at hstep
      have hfront : DisInputSource.InOrder (before.map (DisItem.stamped emit rateHz)) :=
        hstep.before.before
      have hfresh : DisInputSource.Accepts (before.map (DisItem.stamped emit rateHz))
          (e.stamped emit rateHz) :=
        (DisInputSource.remembers_run hfront).accepts hstep.before.last
      have hstamp : DisInputSource.stampOf d.bytes = (e.stamped emit rateHz).ts := by
        rw [hds.1, DisInputSource.stampOf, h.timestamp]
        exact timestampOf_ticks (e.time rateHz)
      have hstale : (DisInputSource.isStale (DisInputSource.packed (e.pdu emit))
          (DisInputSource.stampOf d.bytes) m.lastTs).1 = false := by
        rw [hstamp, hm]
        exact hfresh
      have hadmitted : DisInputSource.admitted unmarshal cfg d.bytes m = some (e.pdu emit) := by
        have hbody : unmarshal d.bytes = some (e.pdu emit) := hds.1 ▸ h.body (e.out emit rateHz)
        rw [DisInputSource.admitted, hbody, hds.1, if_pos (headerPasses_marshal h hcfg e), ← hds.1]
        simp [hstale]
      have hlast : (DisInputSource.remember unmarshal cfg d m).lastTs =
          (DisInputSource.judged ((before ++ [e]).map (DisItem.stamped emit rateHz))).lastTs := by
        have heq := DisInputSource.isStale_eq (DisInputSource.packed (e.pdu emit))
          (DisInputSource.stampOf d.bytes) m.lastTs
        rw [hstale, if_neg Bool.false_ne_true, hstamp, hm] at heq
        rw [List.map_append, List.map_singleton, DisInputSource.judged_append, DisInputSource.judge]
        refine Eq.trans ?_ (congrArg Prod.snd heq).symm
        unfold DisInputSource.remember
        rw [hadmitted, ← hstamp, ← hm]
        rfl
      rw [DisInputSource.accepted, hadmitted, ih (before ++ [e]) horder' hlast hds.2]
      rfl

/-! ## What the backend shows -/

/-- The object types that DIS carries. -/
def carriedType (olvType : U8) : ObjectType :=
  if olvType = ObjectType.kSatellite.value then .kSatellite
  else if olvType = ObjectType.kGroundHot.value then .kGroundHot
  else if olvType = ObjectType.kComet.value then .kComet
  else if olvType = ObjectType.kDebris.value then .kDebris
  else .kUnknown

/-- The two tables of entity types are inverse to one another. -/
theorem mapObjectType_mapEntityType (olvType : U8) :
    DisInputSource.mapObjectType (mapEntityType olvType).1 (mapEntityType olvType).2 =
      carriedType olvType := by
  unfold mapEntityType carriedType
  split_ifs <;> rfl

/-- The row of an object as DIS carries it. -/
def carried (site : U16) (rec : ObjectRecord) : SnapshotObject where
  id := DisInputSource.foldEntityId site ((rec.id >>> 16).setWidth 16) ((rec.id &&& 0xFFFF).setWidth 16)
  type := (carriedType rec.type).value
  flags := Proto.kFlagHasVelocity
  confidence := 100
  px := rec.px
  py := rec.py
  pz := rec.pz
  vx := rec.vx
  vy := rec.vy
  vz := rec.vz

theorem pduRow_pdu {e : DisItem} (h : e.isSat = false) :
    DisInputSource.pduRow (e.pdu emit) = carried emit.site e.record := by
  rw [DisItem.pdu, h, if_neg Bool.false_ne_true, DisInputSource.pduRow]
  simp only [pduOf, mapObjectType_mapEntityType]
  rfl

/-- The satellite as DIS carries it, apart from its sequence. -/
def carriedSatellite (emit : DisEmitConfig) (sat : ObjectRecord) : SatelliteState where
  id := emit.satellite.fold
  px := sat.px
  py := sat.py
  pz := sat.pz
  vx := sat.vx
  vy := sat.vy
  vz := sat.vz

/-- The last of an object that is delivered. -/
def lastObject (emit : DisEmitConfig) (items : List DisItem) (id : U32) : Option DisItem :=
  (items.filter fun e => !e.isSat && (carried emit.site e.record).id = id).getLast?

/-- No object goes out under the id of the satellite. -/
def Apart (emit : DisEmitConfig) (items : List DisItem) : Prop :=
  ∀ e ∈ items, e.isSat = false → (e.pdu emit).id ≠ emit.satellite

theorem isSatellite_pdu (hcfg : Configured emit cfg) (hapart : Apart emit items) {e : DisItem}
    (he : e ∈ items) : DisInputSource.isSatellite cfg (e.pdu emit) = e.isSat := by
  cases hsat : e.isSat with
  | true =>
    rw [DisInputSource.isSatellite_iff, hcfg.satellite, DisItem.pdu, hsat]
    rfl
  | false =>
    rw [Bool.eq_false_iff, ne_eq, DisInputSource.isSatellite_iff, hcfg.satellite]
    exact hapart e he hsat

theorem satelliteFrom_items (hcfg : Configured emit cfg) (hapart : Apart emit items) :
    DisInputSource.satelliteFrom cfg (items.map (DisItem.pdu emit)) =
      (items.filter DisItem.isSat).getLast?.elim {} fun e => carriedSatellite emit e.record := by
  have hfilter : items.filter (DisInputSource.isSatellite cfg ∘ DisItem.pdu emit) =
      items.filter DisItem.isSat :=
    List.filter_congr fun e he => isSatellite_pdu hcfg hapart he
  rw [DisInputSource.satelliteFrom, List.filter_map, hfilter, List.getLast?_map]
  cases hlast : (items.filter DisItem.isSat).getLast? with
  | none => rfl
  | some e =>
    have hsat := List.of_mem_filter (List.mem_of_getLast? hlast)
    rw [Option.map_some, Option.elim_some, Option.elim_some, DisItem.pdu, if_pos hsat]
    rfl

theorem lastFolding_items (hcfg : Configured emit cfg) (hapart : Apart emit items) (id : U32) :
    DisInputSource.lastFolding cfg id (items.map (DisItem.pdu emit)) =
      (lastObject emit items id).map (DisItem.pdu emit) := by
  rw [DisInputSource.lastFolding, lastObject, List.filter_map, List.getLast?_map]
  congr 2
  refine List.filter_congr fun e he => ?_
  rw [Function.comp_apply, isSatellite_pdu hcfg hapart he]
  cases hsat : e.isSat with
  | true => rw [Bool.not_true, Bool.false_and, Bool.false_and]
  | false =>
    have hid : DisInputSource.folded (e.pdu emit) = (carried emit.site e.record).id :=
      congrArg SnapshotObject.id (pduRow_pdu hsat)
    rw [hid]

end Source

/-- **A DIS run.** Some of what a run sends gets through, in order and at any speed, with two
PDUs of an entity never more than 1799 seconds apart, and no object goes out under the id of
the satellite, which `dis_builder.hpp` tells senders to avoid. Then the backend accepts all of
it, over the hourly wraps of the time stamp. Its satellite is the last one that got through,
and its rows are the objects as DIS carries them, each as it got through last. -/
theorem dis_delivery {marshal : OutPdu → List Byte} {unmarshal : List Byte → Option EntityStatePdu}
    (hlib : Interoperates marshal unmarshal) (emit : DisEmitConfig) (cfg : DisInputSource.Config)
    (hcfg : Configured emit cfg) {rateHz : F64} {frames : List Frame} {items : List DisItem}
    (hsub : items.Sublist (runItems frames)) (hclock : Clocked rateHz items)
    (hspaced : Spaced emit rateHz items) (hapart : Apart emit items) (expiry : Int)
    (actions : List Action)
    (hsettled : (DisInputSource.world unmarshal cfg expiry actions).settled.map Datagram.bytes =
      items.map fun e => marshal (e.out emit rateHz)) :
    let w := DisInputSource.world unmarshal cfg expiry actions
    DisInputSource.acceptedIn unmarshal cfg w = items.map (DisItem.pdu emit) ∧
    (items = [] → w.store.satellite = none) ∧
    (∀ e ∈ (items.filter DisItem.isSat).getLast?,
      w.store.satellite.map SatelliteState.body = some (carriedSatellite emit e.record)) ∧
    ∀ id, (∀ o ∈ StateStore.table w.store.objects id, ∃ e ∈ lastObject emit items id,
        o.obj = carried emit.site e.record) ∧
      (StateStore.table w.store.objects id = none → lastObject emit items id = none ∨
        ∃ o, StateStore.lastWrite expiry w.calls id = some o ∧
          ∃ m ∈ StateStore.snapshotStamps w.calls, m - o.lastUpdate > seconds expiry) := by
  intro w
  have horder := items_inOrder hclock ((runItems_ascending frames).sublist hsub) hspaced
  have haccepted : DisInputSource.acceptedIn unmarshal cfg w = items.map (DisItem.pdu emit) :=
    accepted_items hlib hcfg [] horder rfl hsettled
  have htranslated : DisInputSource.Translated unmarshal cfg expiry w :=
    DisInputSource.world_translated expiry actions
  have hrec : World.Recorded (disSections unmarshal cfg) expiry w := World.run_recorded expiry actions
  have hcarried := htranslated.carried
  rw [haccepted] at hcarried
  refine ⟨haccepted, fun hnil => hcarried.unseen (by rw [hnil]; rfl), fun e he => ?_, fun id => ?_⟩
  · have hne : items ≠ [] := List.ne_nil_of_mem (List.mem_of_mem_filter (List.mem_of_getLast? he))
    rw [hcarried.seen (mt List.map_eq_nil_iff.mp hne), satelliteFrom_items hcfg hapart, he]
    rfl
  · have hrow := htranslated.table_row hrec id
    rw [haccepted, lastFolding_items hcfg hapart, Option.map_eq_none_iff] at hrow
    refine ⟨fun o ho => ?_, hrow.2⟩
    obtain ⟨pdu, hpdu, hobj⟩ := hrow.1 o ho
    obtain ⟨e, he, rfl⟩ := Option.map_eq_some_iff.mp hpdu
    have hmem : e ∈ items.filter fun e => !e.isSat && (carried emit.site e.record).id = id :=
      List.mem_of_getLast? he
    have hobject := (Bool.and_eq_true_iff.mp (List.mem_filter.mp hmem).2).1
    refine ⟨e, he, hobj.trans (pduRow_pdu ?_)⟩
    simpa using hobject

/-! ## A library that does -/

/-- A big-endian word is the little-endian one of the bytes turned round. -/
theorem beU32_eq {d : List Byte} {off : ℕ} (h : off + 4 ≤ d.length) :
    DisInputSource.beU32 d off = Wire.leValue 32 (Wire.slice d off 4).reverse := by
  have hslice : Wire.slice d off 4 =
      [byteAt d off, byteAt d (off + 1), byteAt d (off + 2), byteAt d (off + 3)] :=
    Proto.slice_bytes h
  rw [hslice, DisInputSource.beU32]
  generalize byteAt d off = a
  generalize byteAt d (off + 1) = b
  generalize byteAt d (off + 2) = c
  generalize byteAt d (off + 3) = e
  simp only [List.reverse_cons, List.reverse_nil, List.nil_append, List.cons_append,
    Wire.leValue_cons, Wire.leValue_nil, BitVec.zero_shiftLeft, BitVec.zero_or,
    BitVec.shiftLeft_or_distrib, ← BitVec.shiftLeft_add]

/-- The parts of a PDU. -/
def pduParts (out : OutPdu) : List (List Byte) :=
  [pduHeader out, bigEndian 2 out.pdu.site, bigEndian 2 out.pdu.application,
    bigEndian 2 out.pdu.entity, [0, 0, out.pdu.kind, out.pdu.domain], List.replicate 14 0,
    bigEndian 4 out.pdu.vx.bits, bigEndian 4 out.pdu.vy.bits, bigEndian 4 out.pdu.vz.bits,
    bigEndian 8 out.pdu.x.bits, bigEndian 8 out.pdu.y.bits, bigEndian 8 out.pdu.z.bits,
    List.replicate 72 0]

theorem writeEntityStatePdu_eq (out : OutPdu) :
    writeEntityStatePdu out = (pduParts out).flatten := by
  simp only [writeEntityStatePdu, pduParts, List.flatten_cons, List.flatten_nil, List.append_assoc,
    List.append_nil]

/-- A number among the parts is read back. -/
theorem leValue_part {out : OutPdu} {w n off : ℕ} {v : BitVec w} (hw : w ≤ 8 * n) (k : ℕ)
    (hpart : (pduParts out)[k]? = some (bigEndian n v))
    (hoff : ((pduParts out).take k).flatten.length = off) :
    Wire.leValue w (Wire.slice (writeEntityStatePdu out) off n).reverse = v := by
  obtain ⟨hk, hget⟩ := List.getElem?_eq_some_iff.mp hpart
  have hsplit : (pduParts out).flatten = ((pduParts out).take k).flatten ++
      (bigEndian n v ++ ((pduParts out).drop (k + 1)).flatten) := by
    rw [← List.flatten_cons, ← hget, ← List.drop_eq_getElem_cons hk, ← List.flatten_append,
      List.take_append_drop]
  rw [writeEntityStatePdu_eq, hsplit]
  exact leValue_bigEndian hw v hoff

theorem writeEntityStatePdu_interoperates :
    Interoperates writeEntityStatePdu DisInputSource.readEntityStatePdu := by
  have hlength (out : OutPdu) : (writeEntityStatePdu out).length = 144 := by
    simp only [writeEntityStatePdu, List.length_append, length_pduHeader, length_bigEndian,
      List.length_cons, List.length_nil, List.length_replicate]
  constructor
  · intro out
    rw [hlength]
    decide
  · exact fun out => rfl
  · exact fun out => rfl
  · exact fun out => rfl
  · intro out
    rw [beU32_eq (by rw [hlength]; decide)]
    refine leValue_bigEndian (a := [6, out.exerciseId, 1, 1]) (by decide) out.timestamp rfl
  · intro out
    have hsite : Wire.leValue 16 (Wire.slice (writeEntityStatePdu out) 12 2).reverse = out.pdu.site :=
      leValue_part (by decide) 1 rfl rfl
    have happ : Wire.leValue 16 (Wire.slice (writeEntityStatePdu out) 14 2).reverse =
        out.pdu.application := leValue_part (by decide) 2 rfl rfl
    have hentity : Wire.leValue 16 (Wire.slice (writeEntityStatePdu out) 16 2).reverse =
        out.pdu.entity := leValue_part (by decide) 3 rfl rfl
    have hvx : Wire.leValue 32 (Wire.slice (writeEntityStatePdu out) 36 4).reverse =
        out.pdu.vx.bits := leValue_part (by decide) 6 rfl rfl
    have hvy : Wire.leValue 32 (Wire.slice (writeEntityStatePdu out) 40 4).reverse =
        out.pdu.vy.bits := leValue_part (by decide) 7 rfl rfl
    have hvz : Wire.leValue 32 (Wire.slice (writeEntityStatePdu out) 44 4).reverse =
        out.pdu.vz.bits := leValue_part (by decide) 8 rfl rfl
    have hx : Wire.leValue 64 (Wire.slice (writeEntityStatePdu out) 48 8).reverse =
        out.pdu.x.bits := leValue_part (by decide) 9 rfl rfl
    have hy : Wire.leValue 64 (Wire.slice (writeEntityStatePdu out) 56 8).reverse =
        out.pdu.y.bits := leValue_part (by decide) 10 rfl rfl
    have hz : Wire.leValue 64 (Wire.slice (writeEntityStatePdu out) 64 8).reverse =
        out.pdu.z.bits := leValue_part (by decide) 11 rfl rfl
    unfold DisInputSource.readEntityStatePdu
    dsimp only
    rw [if_neg (by rw [hlength]; exact Nat.lt_irrefl 144), hsite, happ, hentity, hvx, hvy, hvz, hx,
      hy, hz]
    rfl

/-- A cycle every 1024 seconds. -/
def sampleRate : F64 := ⟨0x3F50000000000000⟩

/-- An object and the satellite, which move away at one metre a second. -/
def movingFrames : List Frame :=
  let moving : ObjectParams := { still with motion := fun t => ⟨t, ⟨0⟩, ⟨0⟩, ⟨0x3F800000⟩, ⟨0⟩, ⟨0⟩⟩ }
  [0, 1024, 2048, 3072, 4096].map fun t =>
    frameAt moving.motion (generatedObjects (fun _ => moving) 1) (F64.ofNat t)

/-- Of the satellite the cycles 2 and 3 get through, of the object the cycles 3 and 4. -/
def sampleItems : List DisItem :=
  (runItems movingFrames).filter fun e => e.cycle = 3 || e.cycle = if e.isSat then 2 else 4

def sampleActions : List Action :=
  World.whole (sampleItems.map fun e => { bytes := writeEntityStatePdu (e.out {} sampleRate) })

theorem sampleItems_spaced : Spaced {} sampleRate sampleItems :=
  (((Prefixes.Each.nil.append (by decide +kernel)).append (by decide +kernel)).append
    (by decide +kernel)).append (by decide +kernel)

theorem sampleItems_apart : Apart {} sampleItems := by
  unfold Apart
  decide +kernel

theorem settled_sampleActions :
    (DisInputSource.world DisInputSource.readEntityStatePdu ⟨none, 1, 1, 1⟩ 15
      sampleActions).settled.map Datagram.bytes =
        sampleItems.map fun e => writeEntityStatePdu (e.out {} sampleRate) := by
  rw [DisInputSource.world, sampleActions, World.settled_whole _ _ rfl, List.map_append, List.map_map]
  rfl

/-- The time stamp of the last PDU is from the next hour, and it is accepted like the
others: the row is where the object was then. -/
theorem dis_delivery_sample :
    let w := DisInputSource.world DisInputSource.readEntityStatePdu ⟨none, 1, 1, 1⟩ 15 sampleActions
    sampleItems.map (fun e => timestampOf (e.time sampleRate)) =
      [2443359172, 3665038758, 3665038758, 591751048] ∧
    (DisInputSource.acceptedIn DisInputSource.readEntityStatePdu ⟨none, 1, 1, 1⟩ w).length = 4 ∧
    w.store.satellite.map SatelliteState.body =
      some (carriedSatellite {} { id := 1, px := F64.ofNat 3072, vx := ⟨0x3F800000⟩ }) ∧
    rowsOf w.store (carried 1 { id := 1 }).id =
      some (carried 1 { id := 1, type := 1, px := F64.ofNat 4096, vx := ⟨0x3F800000⟩ }) := by
  intro w
  have hsub : sampleItems.Sublist (runItems movingFrames) := List.filter_sublist
  obtain ⟨haccepted, _, hsat, hrows⟩ := dis_delivery writeEntityStatePdu_interoperates {}
    ⟨none, 1, 1, 1⟩ ⟨(fun _ hid => nomatch hid), rfl⟩ hsub
    ⟨by decide +kernel, by decide +kernel, by decide +kernel⟩ sampleItems_spaced sampleItems_apart
    15 sampleActions settled_sampleActions
  have hlast : lastObject {} sampleItems (carried 1 { id := 1 }).id = some ⟨4, false,
      { id := 1, type := 1, flags := Proto.kFlagHasVelocity, confidence := 100
        px := F64.ofNat 4096, vx := ⟨0x3F800000⟩ }⟩ := by
    decide +kernel
  obtain ⟨hrow, hgone⟩ := hrows (carried 1 { id := 1 }).id
  refine ⟨by decide +kernel, ?_, ?_, ?_⟩
  · rw [haccepted, List.length_map]
    decide +kernel
  · exact hsat ⟨3, true, { id := 1, px := F64.ofNat 3072, vx := ⟨0x3F800000⟩ }⟩ (by decide +kernel)
  · cases htable : StateStore.table w.store.objects (carried 1 { id := 1 }).id with
    | none =>
      rcases hgone htable with hnone | ⟨_, _, m, hm, _⟩
      · rw [hlast] at hnone
        cases hnone
      · have hnever : StateStore.snapshotStamps w.calls = [] := by decide +kernel
        rw [hnever] at hm
        cases hm
    | some o =>
      obtain ⟨e, he, hobj⟩ := hrow o htable
      obtain rfl := Option.some.inj (hlast.symm.trans he)
      rw [rowsOf, htable, Option.map_some, hobj]
      rfl

end Olv.Sim
