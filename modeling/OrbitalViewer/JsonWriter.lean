import OrbitalViewer.Lib.Json
import OrbitalViewer.StateStore

/-!
# The messages

`json_writer.cpp`, and the time stamp of `logger.cpp` it writes. Text is a list
of characters; the arguments of `snprintf` are cut to their buffers.
-/

namespace Olv
open Ieee (Datum)
open Decimal (digits sign padded fixed)
open Json (commas)

/-! ## Time stamps -/

/-- `%0wd`, the sign counted in the width. -/
def paddedInt (w : Nat) (z : Int) : List Char :=
  sign (z < 0) ++ padded (w - (sign (z < 0)).length) z.natAbs

/-- The broken-down time, with the year and the month as they are printed. -/
structure Tm where
  year : Int
  mon : Int
  mday : Int
  hour : Int
  min : Int
  sec : Int
  deriving DecidableEq

/-- `gmtime_r`: the proleptic Gregorian calendar, in eras of 400 years that
start on 1 March. -/
def gmtime (t : Int) : Tm :=
  let z := t / 86400 + 719468
  let doe := z % 146097
  let yoe := (doe - doe / 1460 + doe / 36524 - doe / 146096) / 365
  let doy := doe - (365 * yoe + yoe / 4 - yoe / 100)
  let mp := (5 * doy + 2) / 153
  let mon := if mp < 10 then mp + 3 else mp - 9
  { year := yoe + z / 146097 * 400 + if mon ≤ 2 then 1 else 0
    mon
    mday := doy - (153 * mp + 2) / 5 + 1
    hour := t % 86400 / 3600
    min := t % 3600 / 60
    sec := t % 60 }

/-- Seconds and milliseconds are truncated toward zero, as the casts do. -/
def iso8601Utc (tp : Int) : List Char :=
  let secs := tp.tdiv (seconds 1)
  let ms := (tp - seconds secs).tdiv 1000000
  let tm := gmtime secs
  (paddedInt 4 tm.year ++ '-' :: paddedInt 2 tm.mon ++ '-' :: paddedInt 2 tm.mday ++
    'T' :: paddedInt 2 tm.hour ++ ':' :: paddedInt 2 tm.min ++ ':' :: paddedInt 2 tm.sec ++
    '.' :: paddedInt 3 ms ++ ['Z']).take 95

example : iso8601Utc 1782909296789000000 = "2026-07-01T12:34:56.789Z".toList := by decide

/-! ## Numbers -/

/-- `%.pf` into 48 bytes, one of them the terminator. -/
def appendFloat (p : Nat) (v : Datum) : List Char := (fixed p v).take 47

/-- `%llu` into 24 bytes. -/
def appendU64 (v : BitVec 64) : List Char := (digits v.toNat).take 23

/-- `%lld` into 24 bytes. -/
def appendInt (v : Int) : List Char := (sign (v < 0) ++ digits v.natAbs).take 23

/-! ## The message -/

def satelliteText (sat : SatelliteState) : List Char :=
  "\x7b\"id\":".toList ++ appendU64 (sat.id.setWidth 64) ++
  ",\"seq\":".toList ++ appendU64 (sat.seq.setWidth 64) ++
  ",\"pos\":[".toList ++ appendFloat 1 sat.px.datum ++ ",".toList ++
  appendFloat 1 sat.py.datum ++ ",".toList ++ appendFloat 1 sat.pz.datum ++
  "],\"vel\":[".toList ++ appendFloat 2 sat.vx.datum ++ ",".toList ++
  appendFloat 2 sat.vy.datum ++ ",".toList ++ appendFloat 2 sat.vz.datum ++ "]\x7d".toList

def objectRow (o : SnapshotObject) : List Char :=
  "[".toList ++ appendU64 (o.id.setWidth 64) ++ ",".toList ++ appendInt o.type.toNat ++
  ",".toList ++ appendFloat 1 o.px.datum ++ ",".toList ++ appendFloat 1 o.py.datum ++
  ",".toList ++ appendFloat 1 o.pz.datum ++ ",".toList ++
  (if o.hasVelocity then
    appendFloat 2 o.vx.datum ++ ",".toList ++ appendFloat 2 o.vy.datum ++ ",".toList ++
    appendFloat 2 o.vz.datum
  else "null,null,null".toList) ++
  ",".toList ++ appendInt o.confidence.toNat ++ ",".toList ++ appendFloat 1 o.intensity.datum ++
  ",".toList ++ appendInt o.flags.toNat ++ "]".toList

def trailPointRow (tp : TrailPoint) : List Char :=
  "[".toList ++ appendU64 (tp.id.setWidth 64) ++ ",".toList ++ appendFloat 3 tp.t.datum ++
  ",".toList ++ appendFloat 1 tp.px.datum ++ ",".toList ++ appendFloat 1 tp.py.datum ++
  ",".toList ++ appendFloat 1 tp.pz.datum ++ "]".toList

/-- The key is left out when there is no point. -/
def trailPointsText (points : List TrailPoint) : List Char :=
  if points = [] then []
  else ",\"trailPoints\":[".toList ++ commas (points.map trailPointRow) ++ "]".toList

/-- A counter is 64 bits wide, so it is printed modulo 2^64. -/
def appendCounter (n : Nat) : List Char := appendU64 (BitVec.ofNat 64 n)

def statsText (stats : Stats) (objectCount : Nat) (wsClients : BitVec 32) : List Char :=
  ",\"stats\":\x7b\"udpReceived\":".toList ++ appendCounter stats.udpReceived ++
  ",\"udpAccepted\":".toList ++ appendCounter stats.udpAccepted ++
  ",\"udpDropped\":".toList ++ appendCounter (stats.udpDroppedMalformed + stats.udpDroppedStale) ++
  ",\"udpRateHz\":".toList ++ appendFloat 2 stats.udpRateHz.datum ++
  ",\"wsClients\":".toList ++ appendInt wsClients.toInt ++
  ",\"objectCount\":".toList ++ appendCounter objectCount ++
  ",\"broadcastSeq\":".toList ++ appendCounter stats.broadcastSeq ++ "\x7d\x7d".toList

def timeText (t : Int) : List Char := "\"".toList ++ iso8601Utc t ++ "\"".toList

def buildStateMessage (snap : Snapshot) (serverTime : Int) (wsClients : BitVec 32) : List Char :=
  "\x7b\"type\":\"state\",\"serverTime\":\"".toList ++ iso8601Utc serverTime ++
  "\",\"lastDataTime\":".toList ++ snap.lastDataTime.elim "null".toList timeText ++
  ",\"satellite\":".toList ++ snap.satellite.elim "null".toList satelliteText ++
  ",\"objects\":[".toList ++ commas (snap.objects.map objectRow) ++ "]".toList ++
  trailPointsText snap.trailPoints ++ statsText snap.stats snap.objects.length wsClients

def buildHelloMessage (serverTime : Int) (broadcastHz : Ieee.F64) : List Char :=
  "\x7b\"type\":\"hello\",\"protocolVersion\":1,\"serverTime\":\"".toList ++ iso8601Utc serverTime ++
  "\",\"broadcastHz\":".toList ++ appendFloat 1 broadcastHz.datum ++
  ",\"limits\":\x7b\"maxObjects\":".toList ++ appendU64 (Proto.kMaxTrackedObjects.setWidth 64) ++
  "\x7d\x7d".toList

end Olv
