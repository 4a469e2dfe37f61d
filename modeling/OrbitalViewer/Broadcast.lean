import OrbitalViewer.Bounds
import OrbitalViewer.JsonWriter
import OrbitalViewer.NetParse

/-!
# Writer and parser agree

What the writer prints for a snapshot is read back by the parser as that
snapshot with its numbers rounded (`message_read`), provided that every number
prints well: `Prints` says that its text, cut to the buffer, reads as the
rounded value.
-/

namespace Olv
open Ieee (Datum F32 F64)
open Decimal (fixed rounded digits sign)
open Json (Value Parses ParsesMember arrayText objectText quoted commas)
open NetParse (Vec3 finiteNumber kOverflow)

/-! ## What a message shows -/

def rounded3 (p : Nat) (x y z : Datum) : Vec3 := (rounded p x, rounded p y, rounded p z)

def shownSatellite (sat : SatelliteState) : NetParse.Satellite where
  id := sat.id.toNat
  seq := sat.seq.toNat
  pos := rounded3 1 sat.px.datum sat.py.datum sat.pz.datum
  vel := rounded3 2 sat.vx.datum sat.vy.datum sat.vz.datum

/-- The category names of `docs/PROTOCOL_WS.md`, where any other type is unknown. -/
def categoryName (type : U8) : String :=
  if type = Proto.ObjectType.kDebris.value then "debris"
  else if type = Proto.ObjectType.kStar.value then "star"
  else if type = Proto.ObjectType.kComet.value then "comet"
  else if type = Proto.ObjectType.kSatellite.value then "satellite"
  else if type = Proto.ObjectType.kGroundHot.value then "groundHot"
  else "unknown"

def shownObject (o : SnapshotObject) : NetParse.ObjectRow where
  id := o.id.toNat
  cat := categoryName o.type
  pos := rounded3 1 o.px.datum o.py.datum o.pz.datum
  vel := if o.hasVelocity then some (rounded3 2 o.vx.datum o.vy.datum o.vz.datum) else none
  conf := o.confidence.toNat
  intensity := rounded 1 o.intensity.datum
  flags := o.flags.toNat

def shownTrailPoint (tp : TrailPoint) : NetParse.TrailPointRow where
  id := tp.id.toNat
  t := rounded 3 tp.t.datum
  pos := rounded3 1 tp.px.datum tp.py.datum tp.pz.datum

def shownStats (stats : Stats) (objectCount : Nat) (wsClients : BitVec 32) :
    List (String × Value) :=
  let counter (n : Nat) : Value := .num (BitVec.ofNat 64 n).toNat
  [("udpReceived", counter stats.udpReceived), ("udpAccepted", counter stats.udpAccepted),
    ("udpDropped", counter (stats.udpDroppedMalformed + stats.udpDroppedStale)),
    ("udpRateHz", .num (rounded 2 stats.udpRateHz.datum)), ("wsClients", .num wsClients.toInt),
    ("objectCount", counter objectCount), ("broadcastSeq", counter stats.broadcastSeq)]

def shown (snap : Snapshot) (serverTime : Int) (wsClients : BitVec 32) : NetParse.State where
  serverTime := String.ofList (iso8601Utc serverTime)
  lastDataTime := snap.lastDataTime.map fun t => String.ofList (iso8601Utc t)
  satellite := snap.satellite.map shownSatellite
  objects := snap.objects.map shownObject
  stats := shownStats snap.stats snap.objects.length wsClients
  trailPoints := snap.trailPoints.map shownTrailPoint

/-! ## Numbers -/

/-- A value is printed so that it reads as rounded, and as a finite number. -/
structure Prints (p : Nat) (v : Datum) : Prop where
  text : Parses (appendFloat p v) (.num (rounded p v))
  finite : |rounded p v| < kOverflow

theorem Prints.read {p : Nat} {v : Datum} (h : Prints p v) :
    finiteNumber (.num (rounded p v)) = some (rounded p v) := if_pos h.finite

/-- A bounded value whose text fits the buffer. -/
theorem prints_of_bounded {p : Nat} (hp : 0 < p) {v : Datum} (hv : v.Proper)
    (hfin : v.isFinite = true) {B k : Nat} (hk : 0 < k) (hB : |v.toRat| ≤ B) (hlt : B < 10 ^ k)
    (hlen : k + p + 2 ≤ 47) : (fixed p v).length ≤ 47 ∧ Prints p v := by
  obtain ⟨hfixed, hrounded⟩ := Decimal.fixed_bounded hp hv hfin hk hB hlt
  have hcut : appendFloat p v = fixed p v := List.take_of_length_le (hfixed.trans hlen)
  refine ⟨hfixed.trans hlen, ?_, ?_⟩
  · rw [hcut]
    cases v with
    | fin neg mag => exact Parses.fixed hp neg mag
    | nan _ => cases hfin
    | inf _ => cases hfin
  · have hpow : (B : ℚ) < 10 ^ 47 := by
      exact_mod_cast hlt.trans_le (Nat.pow_le_pow_right (by decide) (by omega))
    calc |rounded p v| ≤ B := hrounded
      _ < 10 ^ 47 := hpow
      _ < kOverflow := by decide +kernel

theorem coordinate_prints {x : F64} (h : Proto.Coordinate x) :
    (fixed 1 x.datum).length ≤ 47 ∧ Prints 1 x.datum :=
  prints_of_bounded (by decide) x.datum_proper h.1 (B := 10 ^ 13) (k := 14) (by decide)
    (by exact_mod_cast h.2) (by decide) (by decide)

theorem float_prints {x : F32} (h : x.datum.isFinite = true) {p : Nat} (hp : 0 < p) (hp' : p ≤ 2) :
    (fixed p x.datum).length ≤ 47 ∧ Prints p x.datum := by
  have hmax : (Ieee.binary32.units Ieee.binary32.infCode : ℚ) / Ieee.binary32.scale = 2 ^ 128 := by
    norm_num [Ieee.Format.units, Ieee.Format.infCode, Ieee.Format.scale, Ieee.binary32]
  have hlt := Ieee.binary32.decode_lt h
  rw [hmax] at hlt
  exact prints_of_bounded hp x.datum_proper h (B := 2 ^ 128) (k := 39) (by decide)
    (by exact_mod_cast hlt.le) (by decide) (by omega)

/-- The accept rate, whatever the number of packets in the window. -/
theorem rate_prints (acceptTimes : List Int) :
    (fixed 2 (StateStore.rateHz acceptTimes).datum).length ≤ 47 ∧
      Prints 2 (StateStore.rateHz acceptTimes).datum := by
  obtain ⟨n, hn⟩ : ∃ n, (BitVec.ofNat 64 acceptTimes.length).toNat = n := ⟨_, rfl⟩
  have hsize : (n : ℚ) ≤ 2 ^ 64 := by
    have : n < 2 ^ 64 := hn ▸ BitVec.isLt _
    exact_mod_cast this.le
  have hfive : (F64.ofNat StateStore.kRateWindow.toNat).datum = .fin false 5 := by decide +kernel
  obtain ⟨m, hm, hm0, hmle⟩ := Ieee.binary64.round_le (by decide) (by decide) (k := 64) (by decide)
    false (Nat.cast_nonneg n) hsize
  have hcount : (F64.ofNat n).datum = .fin false m := (F64.datum_ofDatum _).trans hm
  have hfifth : m / 5 ≤ 2 ^ 65 := by
    rw [div_le_iff₀ (by norm_num)]
    exact hmle.trans (by norm_num)
  obtain ⟨r, hr, hr0, hrle⟩ := Ieee.binary64.round_le (by decide) (by decide) (k := 65) (by decide)
    false (div_nonneg hm0 (by norm_num)) hfifth
  have hrate : (StateStore.rateHz acceptTimes).datum = .fin false r := by
    rw [StateStore.rateHz, hn, F64.div, F64.datum_ofDatum, hcount, hfive,
      Datum.div_fin false false m (by norm_num)]
    exact hr
  rw [hrate]
  exact prints_of_bounded (by decide) hr0 rfl (B := 2 ^ 66) (k := 20) (by decide)
    (by rw [Datum.abs_toRat hr0]; exact_mod_cast hrle) (by decide) (by decide)

theorem u64_parses (v : BitVec 64) : Parses (appendU64 v) (.num v.toNat) := by
  have hlen : (digits v.toNat).length ≤ 20 :=
    (Decimal.length_digits_le_iff (by decide)).mpr (v.isLt.trans (by decide))
  rw [appendU64, List.take_of_length_le (hlen.trans (by decide))]
  exact Parses.digits v.toNat

theorem u32_parses (v : U32) : Parses (appendU64 (v.setWidth 64)) (.num v.toNat) := by
  have h := u64_parses (v.setWidth 64)
  rwa [BitVec.toNat_setWidth, Nat.mod_eq_of_lt (v.isLt.trans (by decide))] at h

theorem int_parses {v : Int} (hv : v.natAbs < 10 ^ 20) : Parses (appendInt v) (.num v) := by
  have hlen : (digits v.natAbs).length ≤ 20 := (Decimal.length_digits_le_iff (by decide)).mpr hv
  have hsign := Decimal.length_sign_le (decide (v < 0))
  have h := Parses.number (decide (v < 0)) (f := []) (Decimal.digits_ne_nil v.natAbs)
    (fun _ hc => Decimal.isDigit_digits hc) Decimal.digits_head (by simp)
  have hvalue : Json.signed (decide (v < 0))
      (Decimal.value (digits v.natAbs ++ []) / 10 ^ ([] : List Char).length) = v := by
    rw [List.append_nil, Decimal.value_digits, List.length_nil, pow_zero, div_one]
    rcases Int.lt_or_le v 0 with hneg | hpos
    · have : (v.natAbs : ℤ) = -v := by omega
      rw [Json.signed, if_pos (by simpa using hneg), ← Int.cast_natCast, this, Int.cast_neg,
        neg_neg]
    · have : (v.natAbs : ℤ) = v := by omega
      rw [Json.signed, if_neg (by simpa using hpos), ← Int.cast_natCast, this]
  rw [hvalue, Json.fractionText, if_pos rfl, List.append_nil] at h
  rwa [appendInt, List.take_of_length_le (by rw [List.length_append]; omega)]

theorem u8_parses (v : U8) : Parses (appendInt v.toNat) (.num v.toNat) := by
  have h := int_parses (v := v.toNat) (by
    rw [Int.natAbs_natCast]
    exact v.isLt.trans (by decide))
  rwa [Int.cast_natCast] at h

/-- Whole numbers of 64 bits are read as they are. -/
theorem natural_read {n : Nat} (hn : n < 2 ^ 64) : finiteNumber (.num n) = some (n : ℚ) := by
  refine if_pos ?_
  have hpow : (n : ℚ) < 2 ^ 64 := by exact_mod_cast hn
  rw [abs_of_nonneg (Nat.cast_nonneg n)]
  exact hpow.trans (by decide +kernel)

theorem u32_read (v : U32) : finiteNumber (.num v.toNat) = some (v.toNat : ℚ) :=
  natural_read (v.isLt.trans (by decide))

theorem u8_read (v : U8) : finiteNumber (.num v.toNat) = some (v.toNat : ℚ) :=
  natural_read (v.isLt.trans (by decide))

/-! ## Time stamps -/

theorem plain_paddedInt (w : Nat) (z : Int) : ∀ c ∈ paddedInt w z, Json.Plain c := by
  intro c hc
  rcases List.mem_append.mp hc with h | h
  · unfold sign at h
    split at h
    · rw [List.mem_singleton.mp h]
      decide
    · cases h
  · have hdigit := Decimal.isDigit_padded h
    exact Json.plain_of_isAlphanum (by rw [Char.isAlphanum, hdigit, Bool.or_true])

theorem plain_iso8601Utc (tp : Int) : ∀ c ∈ iso8601Utc tp, Json.Plain c := by
  have hmarks : Json.Plain '-' ∧ Json.Plain 'T' ∧ Json.Plain ':' ∧ Json.Plain '.' ∧
      Json.Plain 'Z' := by decide
  have hfields (w : Nat) (z : Int) : (∀ c ∈ paddedInt w z, Json.Plain c) ↔ True :=
    iff_true_intro (plain_paddedInt w z)
  refine fun c hc => List.forall_mem_append.mpr ?_ c (List.mem_of_mem_take hc)
  simp only [List.forall_mem_append, List.forall_mem_cons, List.not_mem_nil, false_implies,
    implies_true, hfields, hmarks, and_self]

theorem time_parses (tp : Int) :
    Parses (quoted (iso8601Utc tp)) (.str (String.ofList (iso8601Utc tp))) :=
  Parses.string (plain_iso8601Utc tp)

/-! ## Rows -/

structure PrintsSatellite (sat : SatelliteState) : Prop where
  px : Prints 1 sat.px.datum
  py : Prints 1 sat.py.datum
  pz : Prints 1 sat.pz.datum
  vx : Prints 2 sat.vx.datum
  vy : Prints 2 sat.vy.datum
  vz : Prints 2 sat.vz.datum

structure PrintsObject (o : SnapshotObject) : Prop where
  px : Prints 1 o.px.datum
  py : Prints 1 o.py.datum
  pz : Prints 1 o.pz.datum
  vx : Prints 2 o.vx.datum
  vy : Prints 2 o.vy.datum
  vz : Prints 2 o.vz.datum
  intensity : Prints 1 o.intensity.datum

structure PrintsTrailPoint (tp : TrailPoint) : Prop where
  t : Prints 3 tp.t.datum
  px : Prints 1 tp.px.datum
  py : Prints 1 tp.py.datum
  pz : Prints 1 tp.pz.datum

def vector (v : Vec3) : List Value := [.num v.1, .num v.2.1, .num v.2.2]

theorem numberArray3_vector {p : Nat} {x y z : Datum} (hx : Prints p x) (hy : Prints p y)
    (hz : Prints p z) :
    NetParse.numberArray3 (some (.arr (vector (rounded3 p x y z)))) = some (rounded3 p x y z) := by
  simp only [NetParse.numberArray3, vector, rounded3, hx.read, hy.read, hz.read,
    Option.bind_eq_bind, Option.bind_some]

def vectorText (p : Nat) (x y z : Datum) : List (List Char) :=
  [appendFloat p x, appendFloat p y, appendFloat p z]

theorem vector_parses {p : Nat} {x y z : Datum} (hx : Prints p x) (hy : Prints p y)
    (hz : Prints p z) :
    List.Forall₂ Parses (vectorText p x y z) (vector (rounded3 p x y z)) :=
  .cons hx.text (.cons hy.text (.cons hz.text .nil))

/-- The satellite as the parser receives it. -/
def satelliteValue (sat : SatelliteState) : List (String × Value) :=
  let s := shownSatellite sat
  [("id", .num s.id), ("seq", .num s.seq), ("pos", .arr (vector s.pos)), ("vel", .arr (vector s.vel))]

theorem satellite_parses {sat : SatelliteState} (h : PrintsSatellite sat) :
    Parses (satelliteText sat) (.obj (satelliteValue sat)) := by
  have htext : satelliteText sat = objectText
      [("id", appendU64 (sat.id.setWidth 64)), ("seq", appendU64 (sat.seq.setWidth 64)),
        ("pos", arrayText (vectorText 1 sat.px.datum sat.py.datum sat.pz.datum)),
        ("vel", arrayText (vectorText 2 sat.vx.datum sat.vy.datum sat.vz.datum))] := by
    unfold satelliteText
    simp [objectText, arrayText, vectorText, commas, Json.memberText, quoted]
  rw [htext]
  exact Parses.object
    (.cons (Json.parsesMember rfl (u32_parses sat.id))
    (.cons (Json.parsesMember rfl (u32_parses sat.seq))
    (.cons (Json.parsesMember rfl (Parses.array (vector_parses h.px h.py h.pz)))
    (.cons (Json.parsesMember rfl (Parses.array (vector_parses h.vx h.vy h.vz))) .nil))))

theorem satellite_read {sat : SatelliteState} (h : PrintsSatellite sat) :
    NetParse.parseSatellite (some (.obj (satelliteValue sat))) = .ok (some (shownSatellite sat)) := by
  have hid : NetParse.finiteAt "id" (satelliteValue sat) = some (sat.id.toNat : ℚ) := u32_read sat.id
  have hseq : NetParse.finiteAt "seq" (satelliteValue sat) = some (sat.seq.toNat : ℚ) :=
    u32_read sat.seq
  have hpos : NetParse.numberArray3 (Json.get "pos" (satelliteValue sat)) =
      some (shownSatellite sat).pos := numberArray3_vector h.px h.py h.pz
  have hvel : NetParse.numberArray3 (Json.get "vel" (satelliteValue sat)) =
      some (shownSatellite sat).vel := numberArray3_vector h.vx h.vy h.vz
  simp only [NetParse.parseSatellite, hid, hseq, hpos, hvel]
  rfl

/-- The velocity columns of a row. -/
def velocityText (o : SnapshotObject) : List (List Char) :=
  if o.hasVelocity then vectorText 2 o.vx.datum o.vy.datum o.vz.datum
  else List.replicate 3 "null".toList

def velocityValues (o : SnapshotObject) : List Value :=
  if o.hasVelocity then vector (rounded3 2 o.vx.datum o.vy.datum o.vz.datum)
  else List.replicate 3 .null

def objectColumns (o : SnapshotObject) : List Value :=
  [.num o.id.toNat, .num o.type.toNat] ++ vector (shownObject o).pos ++ velocityValues o ++
    [.num o.confidence.toNat, .num (shownObject o).intensity, .num o.flags.toNat]

theorem velocity_parses {o : SnapshotObject} (h : PrintsObject o) :
    List.Forall₂ Parses (velocityText o) (velocityValues o) := by
  unfold velocityText velocityValues
  split
  · exact vector_parses h.vx h.vy h.vz
  · exact .cons Parses.null (.cons Parses.null (.cons Parses.null .nil))

theorem object_parses {o : SnapshotObject} (h : PrintsObject o) :
    Parses (objectRow o) (.arr (objectColumns o)) := by
  have htext : objectRow o = arrayText
      ([appendU64 (o.id.setWidth 64), appendInt o.type.toNat] ++
        vectorText 1 o.px.datum o.py.datum o.pz.datum ++ velocityText o ++
        [appendInt o.confidence.toNat, appendFloat 1 o.intensity.datum,
          appendInt o.flags.toNat]) := by
    unfold objectRow velocityText
    split <;> simp [arrayText, vectorText, commas, List.replicate_succ]
  rw [htext]
  have hfirst : List.Forall₂ Parses [appendU64 (o.id.setWidth 64), appendInt o.type.toNat]
      [.num o.id.toNat, .num o.type.toNat] :=
    .cons (u32_parses o.id) (.cons (u8_parses o.type) .nil)
  have hlast : List.Forall₂ Parses [appendInt o.confidence.toNat, appendFloat 1 o.intensity.datum,
      appendInt o.flags.toNat]
      [.num o.confidence.toNat, .num (shownObject o).intensity, .num o.flags.toNat] :=
    .cons (u8_parses o.confidence) (.cons h.intensity.text (.cons (u8_parses o.flags) .nil))
  exact Parses.array (List.rel_append (List.rel_append (List.rel_append hfirst
    (vector_parses h.px h.py h.pz)) (velocity_parses h)) hlast)

theorem integer_read (v : U8) : NetParse.integer (.num v.toNat) = some (v.toNat : ℤ) := by
  simp only [NetParse.integer, u8_read, Option.bind_eq_bind, Option.bind_some, Rat.den_natCast,
    Rat.num_natCast, if_true]

/-- The parser's table agrees with the documented names. -/
theorem category_read (type : U8) :
    (NetParse.CATEGORY_NAMES.lookup (type.toNat : ℤ)).getD "unknown" = categoryName type := by
  revert type
  decide +kernel

theorem velocity_read {o : SnapshotObject} (h : PrintsObject o) (path : String) :
    ∃ vx vy vz, velocityValues o = [vx, vy, vz] ∧
      NetParse.parseVelocity path vx vy vz = .ok (shownObject o).vel := by
  unfold velocityValues shownObject
  split
  · have hvel := numberArray3_vector h.vx h.vy h.vz
    refine ⟨_, _, _, rfl, ?_⟩
    simp only [vector] at hvel
    simp only [NetParse.parseVelocity, hvel]
  · exact ⟨.null, .null, .null, rfl, rfl⟩

theorem object_read {o : SnapshotObject} (h : PrintsObject o) (index : Nat) :
    NetParse.parseObjectRow index (.arr (objectColumns o)) = .ok (shownObject o) := by
  obtain ⟨vx, vy, vz, hcolumns, hvel⟩ := velocity_read h ("objects[" ++ toString index ++ "]")
  have hpos := numberArray3_vector h.px h.py h.pz
  simp only [vector, rounded3] at hpos
  simp only [NetParse.parseObjectRow, objectColumns, hcolumns, vector, shownObject, rounded3,
    List.cons_append, List.nil_append, u32_read, u8_read, integer_read, category_read, hpos,
    h.intensity.read]
  simp only [shownObject, rounded3] at hvel
  rw [hvel]
  rfl

def trailPointColumns (tp : TrailPoint) : List Value :=
  [.num tp.id.toNat, .num (shownTrailPoint tp).t] ++ vector (shownTrailPoint tp).pos

theorem trailPoint_parses {tp : TrailPoint} (h : PrintsTrailPoint tp) :
    Parses (trailPointRow tp) (.arr (trailPointColumns tp)) := by
  have htext : trailPointRow tp = arrayText
      ([appendU64 (tp.id.setWidth 64), appendFloat 3 tp.t.datum] ++
        vectorText 1 tp.px.datum tp.py.datum tp.pz.datum) := by
    unfold trailPointRow
    simp [arrayText, vectorText, commas]
  rw [htext]
  exact Parses.array (.cons (u32_parses tp.id) (.cons h.t.text (vector_parses h.px h.py h.pz)))

theorem trailPoint_read {tp : TrailPoint} (h : PrintsTrailPoint tp) (index : Nat) :
    NetParse.parseTrailPointRow index (.arr (trailPointColumns tp)) = .ok (shownTrailPoint tp) := by
  have hpos := numberArray3_vector h.px h.py h.pz
  simp only [vector, rounded3] at hpos
  simp only [NetParse.parseTrailPointRow, trailPointColumns, shownTrailPoint, vector, rounded3,
    List.cons_append, List.nil_append, u32_read, h.t.read, hpos]

theorem rows_parse {α : Type} {text : α → List Char} {row : α → Value} {l : List α}
    (h : ∀ a ∈ l, Parses (text a) (row a)) : List.Forall₂ Parses (l.map text) (l.map row) := by
  rw [List.forall₂_map_left_iff, List.forall₂_map_right_iff]
  exact List.forall₂_same.mpr h

/-- Rows that are read one by one are read together. -/
theorem rows_read {α β : Type} {parse : Nat → Value → Except NetParse.ParseError β}
    {row : α → Value} {shown : α → β} {l : List α}
    (h : ∀ a ∈ l, ∀ index, parse index (row a) = .ok (shown a)) (index : Nat) :
    NetParse.mapRows parse index (l.map row) = .ok (l.map shown) := by
  induction l generalizing index with
  | nil => rfl
  | cons a l ih =>
    obtain ⟨ha, hl⟩ := List.forall_mem_cons.mp h
    simp only [List.map_cons, NetParse.mapRows, ha index, ih hl (index + 1)]
    rfl

/-! ## The message -/

structure PrintsSnapshot (snap : Snapshot) : Prop where
  satellite : ∀ sat ∈ snap.satellite, PrintsSatellite sat
  objects : ∀ o ∈ snap.objects, PrintsObject o
  trailPoints : ∀ tp ∈ snap.trailPoints, PrintsTrailPoint tp
  rate : Prints 2 snap.stats.udpRateHz.datum

theorem counter_parses (n : Nat) :
    Parses (appendCounter n) (.num (BitVec.ofNat 64 n).toNat) := u64_parses _

theorem stats_parses {stats : Stats} (h : Prints 2 stats.udpRateHz.datum) (objectCount : Nat)
    (wsClients : BitVec 32) : ∃ t, statsText stats objectCount wsClients =
      ",\"stats\":".toList ++ t ++ ['\x7d'] ∧
        Parses t (.obj (shownStats stats objectCount wsClients)) := by
  have hclients : Parses (appendInt wsClients.toInt) (.num wsClients.toInt) := by
    apply int_parses
    have := wsClients.toInt_lt
    have := wsClients.le_toInt
    omega
  refine ⟨objectText
    [("udpReceived", appendCounter stats.udpReceived),
      ("udpAccepted", appendCounter stats.udpAccepted),
      ("udpDropped", appendCounter (stats.udpDroppedMalformed + stats.udpDroppedStale)),
      ("udpRateHz", appendFloat 2 stats.udpRateHz.datum), ("wsClients", appendInt wsClients.toInt),
      ("objectCount", appendCounter objectCount),
      ("broadcastSeq", appendCounter stats.broadcastSeq)], ?_, ?_⟩
  · unfold statsText
    simp [objectText, commas, Json.memberText, quoted]
  · exact Parses.object
      (.cons (Json.parsesMember rfl (counter_parses _))
      (.cons (Json.parsesMember rfl (counter_parses _))
      (.cons (Json.parsesMember rfl (counter_parses _))
      (.cons (Json.parsesMember rfl h.text)
      (.cons (Json.parsesMember rfl hclients)
      (.cons (Json.parsesMember rfl (counter_parses _))
      (.cons (Json.parsesMember rfl (counter_parses _)) .nil)))))))

def satelliteMember (sat : Option SatelliteState) : Value :=
  sat.elim .null fun sat => .obj (satelliteValue sat)

def timeMember (t : Option Int) : Value :=
  t.elim .null fun t => .str (String.ofList (iso8601Utc t))

theorem satelliteMember_parses {sat : Option SatelliteState} (h : ∀ s ∈ sat, PrintsSatellite s) :
    Parses (sat.elim "null".toList satelliteText) (satelliteMember sat) := by
  cases sat with
  | none => exact Parses.null
  | some sat => exact satellite_parses (h sat rfl)

theorem timeMember_parses (t : Option Int) :
    Parses (t.elim "null".toList timeText) (timeMember t) := by
  cases t with
  | none => exact Parses.null
  | some t => exact time_parses t

/-- The message as the parser receives it. -/
def messageValue (snap : Snapshot) (serverTime : Int) (wsClients : BitVec 32) :
    List (String × Value) :=
  [("type", .str "state"), ("serverTime", .str (String.ofList (iso8601Utc serverTime))),
    ("lastDataTime", timeMember snap.lastDataTime), ("satellite", satelliteMember snap.satellite),
    ("objects", .arr (snap.objects.map fun o => .arr (objectColumns o)))] ++
  (if snap.trailPoints = [] then []
    else [("trailPoints", .arr (snap.trailPoints.map fun tp => .arr (trailPointColumns tp)))]) ++
  [("stats", .obj (shownStats snap.stats snap.objects.length wsClients))]

theorem message_parses {snap : Snapshot} (h : PrintsSnapshot snap) (serverTime : Int)
    (wsClients : BitVec 32) :
    Parses (buildStateMessage snap serverTime wsClients)
      (.obj (messageValue snap serverTime wsClients)) := by
  obtain ⟨t, hstats, ht⟩ := stats_parses h.rate snap.objects.length wsClients
  have htext : buildStateMessage snap serverTime wsClients = objectText
      ([("type", quoted "state".toList), ("serverTime", quoted (iso8601Utc serverTime)),
        ("lastDataTime", snap.lastDataTime.elim "null".toList timeText),
        ("satellite", snap.satellite.elim "null".toList satelliteText),
        ("objects", arrayText (snap.objects.map objectRow))] ++
      (if snap.trailPoints = [] then []
        else [("trailPoints", arrayText (snap.trailPoints.map trailPointRow))]) ++
      [("stats", t)]) := by
    unfold buildStateMessage trailPointsText
    rw [hstats]
    split <;> simp [objectText, arrayText, commas, Json.memberText, quoted]
  rw [htext]
  have hobjects := rows_parse fun o ho => object_parses (h.objects o ho)
  have htrail : List.Forall₂ ParsesMember
      (if snap.trailPoints = [] then []
        else [("trailPoints", arrayText (snap.trailPoints.map trailPointRow))])
      (if snap.trailPoints = [] then []
        else [("trailPoints", .arr (snap.trailPoints.map fun tp => .arr (trailPointColumns tp)))]) := by
    split
    · exact .nil
    · have hrows := rows_parse fun tp htp => trailPoint_parses (h.trailPoints tp htp)
      exact .cons (Json.parsesMember rfl (Parses.array hrows)) .nil
  have hfirst : List.Forall₂ ParsesMember
      [("type", quoted "state".toList), ("serverTime", quoted (iso8601Utc serverTime)),
        ("lastDataTime", snap.lastDataTime.elim "null".toList timeText),
        ("satellite", snap.satellite.elim "null".toList satelliteText),
        ("objects", arrayText (snap.objects.map objectRow))]
      [("type", .str "state"), ("serverTime", .str (String.ofList (iso8601Utc serverTime))),
        ("lastDataTime", timeMember snap.lastDataTime),
        ("satellite", satelliteMember snap.satellite),
        ("objects", .arr (snap.objects.map fun o => .arr (objectColumns o)))] :=
    .cons (Json.parsesMember rfl (Parses.string fun c hc =>
        Json.plain_of_isAlphanum (List.all_eq_true.mp (rfl : "state".toList.all _ = true) c hc)))
    (.cons (Json.parsesMember rfl (time_parses serverTime))
    (.cons (Json.parsesMember rfl (timeMember_parses snap.lastDataTime))
    (.cons (Json.parsesMember rfl (satelliteMember_parses h.satellite))
    (.cons (Json.parsesMember rfl (Parses.array hobjects)) .nil))))
  exact Parses.object (List.rel_append (List.rel_append hfirst htrail)
    (.cons (Json.parsesMember rfl ht) .nil))

theorem trailPoints_read {points : List TrailPoint} (h : ∀ tp ∈ points, PrintsTrailPoint tp) :
    NetParse.parseTrailPoints (if points = [] then none
      else some (.arr (points.map fun tp => .arr (trailPointColumns tp)))) =
    .ok (points.map shownTrailPoint) := by
  split
  · rename_i hnil
    rw [hnil]
    rfl
  · exact rows_read (fun tp htp => trailPoint_read (h tp htp)) 0

theorem satelliteMember_read {sat : Option SatelliteState} (h : ∀ s ∈ sat, PrintsSatellite s) :
    NetParse.parseSatellite (some (satelliteMember sat)) = .ok (sat.map shownSatellite) := by
  cases sat with
  | none => rfl
  | some sat => exact satellite_read (h sat rfl)

theorem state_read {snap : Snapshot} (h : PrintsSnapshot snap) (serverTime : Int)
    (wsClients : BitVec 32) :
    NetParse.parseState (messageValue snap serverTime wsClients) =
      .ok (shown snap serverTime wsClients) := by
  obtain ⟨msg, hmsg⟩ : ∃ msg, messageValue snap serverTime wsClients = msg := ⟨_, rfl⟩
  have htime : Json.get "serverTime" msg = some (.str (String.ofList (iso8601Utc serverTime))) := by
    rw [← hmsg, messageValue]
    split <;> rfl
  have hlast : Json.get "lastDataTime" msg = some (timeMember snap.lastDataTime) := by
    rw [← hmsg, messageValue]
    split <;> rfl
  have hsatellite : Json.get "satellite" msg = some (satelliteMember snap.satellite) := by
    rw [← hmsg, messageValue]
    split <;> rfl
  have hobjects : Json.get "objects" msg =
      some (.arr (snap.objects.map fun o => .arr (objectColumns o))) := by
    rw [← hmsg, messageValue]
    split <;> rfl
  have hstats : Json.get "stats" msg =
      some (.obj (shownStats snap.stats snap.objects.length wsClients)) := by
    rw [← hmsg, messageValue]
    split <;> rfl
  have htrail : Json.get "trailPoints" msg = if snap.trailPoints = [] then none
      else some (.arr (snap.trailPoints.map fun tp => .arr (trailPointColumns tp))) := by
    rw [← hmsg, messageValue]
    split <;> rfl
  have hrows := rows_read (fun o ho => object_read (h.objects o ho)) 0
  rw [hmsg]
  simp only [NetParse.parseState, htime, hlast, hsatellite, hobjects, hstats, htrail,
    satelliteMember_read h.satellite, trailPoints_read h.trailPoints, hrows]
  cases hl : snap.lastDataTime <;> simp only [shown, hl] <;> rfl

/-- **The backend writes what the frontend reads**: a snapshot whose numbers
print well is accepted, and shows what it holds. -/
theorem message_read {snap : Snapshot} (h : PrintsSnapshot snap) (serverTime : Int)
    (wsClients : BitVec 32) :
    NetParse.parseStateMessage (buildStateMessage snap serverTime wsClients) =
      .ok (.state (shown snap serverTime wsClients)) := by
  have hparse := Json.parse_eq (message_parses h serverTime wsClients)
  have htype : Json.get "type" (messageValue snap serverTime wsClients) = some (.str "state") := by
    rw [messageValue]
    split <;> rfl
  have hstate := state_read h serverTime wsClients
  rw [NetParse.parseStateMessage, hparse]
  simp only [htype, hstate]
  rfl

/-! ## The hello message -/

def helloValue (serverTime : Int) (broadcastHz : F64) : List (String × Value) :=
  [("type", .str "hello"), ("protocolVersion", .num 1),
    ("serverTime", .str (String.ofList (iso8601Utc serverTime))),
    ("broadcastHz", .num (rounded 1 broadcastHz.datum)),
    ("limits", .obj [("maxObjects", .num Proto.kMaxTrackedObjects.toNat)])]

theorem hello_parses (serverTime : Int) {broadcastHz : F64} (h : Prints 1 broadcastHz.datum) :
    Parses (buildHelloMessage serverTime broadcastHz) (.obj (helloValue serverTime broadcastHz)) := by
  have htext : buildHelloMessage serverTime broadcastHz = objectText
      [("type", quoted "hello".toList), ("protocolVersion", appendU64 1),
        ("serverTime", quoted (iso8601Utc serverTime)),
        ("broadcastHz", appendFloat 1 broadcastHz.datum),
        ("limits", objectText
          [("maxObjects", appendU64 (Proto.kMaxTrackedObjects.setWidth 64))])] := by
    unfold buildHelloMessage
    simp [objectText, commas, Json.memberText, quoted]
    rfl
  have hlimit : Parses (appendU64 (Proto.kMaxTrackedObjects.setWidth 64))
      (.num Proto.kMaxTrackedObjects.toNat) := u64_parses _
  rw [htext]
  exact Parses.object
    (.cons (Json.parsesMember rfl (Parses.string fun c hc =>
        Json.plain_of_isAlphanum (List.all_eq_true.mp (rfl : "hello".toList.all _ = true) c hc)))
    (.cons (Json.parsesMember rfl (u64_parses 1))
    (.cons (Json.parsesMember rfl (time_parses serverTime))
    (.cons (Json.parsesMember rfl h.text)
    (.cons (Json.parsesMember rfl (Parses.object (.cons (Json.parsesMember rfl hlimit) .nil)))
      .nil)))))

/-- A client reads the announced limit. -/
theorem hello_read (serverTime : Int) {broadcastHz : F64} (h : Prints 1 broadcastHz.datum) :
    NetParse.parseStateMessage (buildHelloMessage serverTime broadcastHz) = .ok (.hello {
      serverTime := String.ofList (iso8601Utc serverTime)
      broadcastHz := rounded 1 broadcastHz.datum
      limits := [("maxObjects", .num Proto.kMaxTrackedObjects.toNat)] }) := by
  have hparse := Json.parse_eq (hello_parses serverTime h)
  have htype : Json.get "type" (helloValue serverTime broadcastHz) = some (.str "hello") := rfl
  have hhello : NetParse.parseHello (helloValue serverTime broadcastHz) = .ok {
      serverTime := String.ofList (iso8601Utc serverTime)
      broadcastHz := rounded 1 broadcastHz.datum
      limits := [("maxObjects", .num Proto.kMaxTrackedObjects.toNat)] } := by
    have hversion : Json.get "protocolVersion" (helloValue serverTime broadcastHz) = some (.num 1) := rfl
    have htime : Json.get "serverTime" (helloValue serverTime broadcastHz) =
        some (.str (String.ofList (iso8601Utc serverTime))) := rfl
    have hhz : NetParse.finiteAt "broadcastHz" (helloValue serverTime broadcastHz) =
        some (rounded 1 broadcastHz.datum) := h.read
    have hlimits : Json.get "limits" (helloValue serverTime broadcastHz) =
        some (.obj [("maxObjects", .num Proto.kMaxTrackedObjects.toNat)]) := rfl
    simp only [NetParse.parseHello, hversion, htime, hhz, hlimits]
    rfl
  rw [NetParse.parseStateMessage, hparse]
  simp only [htype, hhello]
  rfl

end Olv
