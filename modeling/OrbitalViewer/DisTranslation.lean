import OrbitalViewer.ReceiveThread

/-!
# DIS entities in the store

A PDU is about one entity, while the store replaces the satellite with every
packet. The satellite carried along from PDU to PDU (`Carried`) makes up for it:
the store's satellite is that of the last satellite PDU and its rows are those of
the last object PDUs (`translation_apart`).
-/

namespace Olv.DisInputSource
open StateStore (table history lastWrite)
open LastWrite (last)

variable (unmarshal : List Wire.Byte → Option EntityStatePdu) (cfg : Config)

/-- The state of both threads in DIS mode, from a fresh store. -/
def world (expiry : Int) (actions : List Action) : World (disInputSource unmarshal cfg) :=
  (World.start (disInputSource unmarshal cfg) expiry).run (disSections unmarshal cfg) actions

/-- The PDUs accepted from a run of datagrams, in order. -/
def accepted (m : Memory) : List Datagram → List EntityStatePdu
  | [] => []
  | d :: ds => (admitted unmarshal cfg d.bytes m).toList ++
      accepted (remember unmarshal cfg d m) ds

/-- The PDUs accepted so far. -/
def acceptedIn (w : World (disInputSource unmarshal cfg)) : List EntityStatePdu :=
  accepted unmarshal cfg {} w.settled

/-- The row of a PDU: a velocity is always sent, a confidence and an intensity never. -/
def pduRow (pdu : EntityStatePdu) : SnapshotObject where
  id := folded pdu
  type := (mapObjectType pdu.kind pdu.domain).value
  flags := Proto.kFlagHasVelocity
  confidence := 100
  px := pdu.x
  py := pdu.y
  pz := pdu.z
  vx := pdu.vx
  vy := pdu.vy
  vz := pdu.vz

/-- The satellite of a PDU, apart from its sequence. -/
def pduSatellite (pdu : EntityStatePdu) : SatelliteState where
  id := folded pdu
  px := pdu.x
  py := pdu.y
  pz := pdu.z
  vx := pdu.vx
  vy := pdu.vy
  vz := pdu.vz

theorem body_satelliteOf (pdu : EntityStatePdu) (seq : U32) :
    (satelliteOf pdu seq).body = pduSatellite pdu := rfl

/-- The satellite of the last satellite PDU, all zero before the first. -/
def satelliteFrom (pdus : List EntityStatePdu) : SatelliteState :=
  (pdus.filter (isSatellite cfg)).getLast?.elim {} pduSatellite

/-- The last PDU of another entity whose id folds to `id`. -/
def lastFolding (id : U32) (pdus : List EntityStatePdu) : Option EntityStatePdu :=
  (pdus.filter fun pdu => !isSatellite cfg pdu && folded pdu = id).getLast?

/-- The rows the PDUs of other entities write. -/
def rowsFrom (pdus : List EntityStatePdu) : List (U32 × SnapshotObject) :=
  (pdus.filter fun pdu => !isSatellite cfg pdu).map fun pdu => (folded pdu, pduRow pdu)

variable {cfg}

theorem satelliteFrom_append (pdus : List EntityStatePdu) (pdu : EntityStatePdu) :
    satelliteFrom cfg (pdus ++ [pdu]) =
      if isSatellite cfg pdu then pduSatellite pdu else satelliteFrom cfg pdus := by
  unfold satelliteFrom
  rw [List.filter_append]
  cases hs : isSatellite cfg pdu with
  | true => simp [hs]
  | false => simp [hs]

theorem last_rowsFrom (id : U32) (pdus : List EntityStatePdu) :
    last (rowsFrom cfg pdus) id = (lastFolding cfg id pdus).map pduRow := by
  have hfilter : (pdus.filter fun pdu => !isSatellite cfg pdu && decide (folded pdu = id)) =
      (pdus.filter fun pdu => !isSatellite cfg pdu).filter fun pdu => folded pdu = id := by
    rw [List.filter_filter]
    exact List.filter_congr fun pdu _ => Bool.and_comm _ _
  rw [lastFolding, hfilter, rowsFrom, last, List.filter_map, List.map_map, List.getLast?_map]
  rfl

theorem accepted_append (m : Memory) (ds : List Datagram) (d : Datagram) :
    accepted unmarshal cfg m (ds ++ [d]) = accepted unmarshal cfg m ds ++
      (admitted unmarshal cfg d.bytes
        (World.remembered (disSections unmarshal cfg) m ds)).toList := by
  induction ds generalizing m with
  | nil => exact List.append_nil _
  | cons e ds ih =>
    rw [List.cons_append, accepted, accepted, ih, List.append_assoc]
    rfl

/-! ## One datagram -/

variable (cfg) in
/-- What a datagram has the receive thread do. -/
theorem sections_cases (d : Datagram) (m : Memory) :
    (admitted unmarshal cfg d.bytes m = none ∧ remember unmarshal cfg d m = m ∧
      ∃ drop : Option DropKind, outcome unmarshal cfg d m = drop.map .countDropped) ∨
    ∃ pdu, admitted unmarshal cfg d.bytes m = some pdu ∧
      (remember unmarshal cfg d m).seq = m.seq + 1 ∧
      (remember unmarshal cfg d m).sat = satelliteAfter cfg pdu m ∧
      outcome unmarshal cfg d m = some (.apply (packetFor cfg pdu m) d.wall d.mono) := by
  unfold remember outcome
  cases admitted unmarshal cfg d.bytes m with
  | none => exact .inl ⟨rfl, rfl, _, rfl⟩
  | some pdu => exact .inr ⟨pdu, rfl, rfl, rfl, rfl⟩

variable (cfg) in
/-- The memory and the store against the PDUs accepted before. -/
structure Carried (m : Memory) (s : StateStore) (pdus : List EntityStatePdu) : Prop where
  seq : s.haveSeq = true → s.lastSeq = m.seq
  sat : m.sat.body = satelliteFrom cfg pdus
  unseen : pdus = [] → s.satellite = none
  seen : pdus ≠ [] → s.satellite.map SatelliteState.body = some (satelliteFrom cfg pdus)

theorem Carried.congr {m : Memory} {s s' : StateStore} {pdus : List EntityStatePdu}
    (h : Carried cfg m s pdus) (hcore : s'.core = s.core) : Carried cfg m s' pdus := by
  simp only [StateStore.core, Prod.mk.injEq] at hcore
  obtain ⟨hhave, hlast, hsat, _, _⟩ := hcore
  constructor
  · rw [hhave, hlast]
    exact h.seq
  · exact h.sat
  · rw [hsat]
    exact h.unseen
  · rw [hsat]
    exact h.seen

theorem body_satelliteAfter (pdu : EntityStatePdu) (m : Memory) :
    (satelliteAfter cfg pdu m).body =
      if isSatellite cfg pdu then pduSatellite pdu else m.sat.body := by
  unfold satelliteAfter
  cases isSatellite cfg pdu with
  | true => exact body_satelliteOf pdu (m.seq + 1)
  | false => rfl

/-- The packet of an accepted PDU. -/
theorem Carried.apply {m : Memory} {s : StateStore} {pdus : List EntityStatePdu}
    (h : Carried cfg m s pdus) (pdu : EntityStatePdu) (wall mono : Int) :
    let r := s.apply (packetFor cfg pdu m) wall mono
    r.1 = .kApplied ∧
    r.2.objects = StateStore.mergeObjects mono (recordsOf cfg pdu) s.objects ∧
    ∀ m', m'.seq = m.seq + 1 → m'.sat = satelliteAfter cfg pdu m → Carried cfg m' r.2 (pdus ++ [pdu]) := by
  have happly := StateStore.apply_fresh (s := s) (p := packetFor cfg pdu m)
    (StateStore.fresh_next h.seq) wall mono
  have hbody : (satelliteAfter cfg pdu m).body = satelliteFrom cfg (pdus ++ [pdu]) := by
    rw [body_satelliteAfter, satelliteFrom_append, h.sat]
  dsimp only
  rw [happly]
  refine ⟨rfl, rfl, fun m' hseq hsat => ⟨fun _ => hseq.symm, ?_, fun hnil => ?_, fun _ => ?_⟩⟩
  · rw [hsat, hbody]
  · exact absurd hnil (List.append_ne_nil_of_right_ne_nil _ (List.cons_ne_nil _ _))
  · rw [← hbody]
    rfl

/-- The rows the packet of an accepted PDU writes. -/
theorem Carried.written {m : Memory} {s : StateStore} {pdus : List EntityStatePdu}
    (h : Carried cfg m s pdus) (pdu : EntityStatePdu) (wall mono : Int) :
    ((StateStore.Call.apply (packetFor cfg pdu m) wall mono).written s).map
      (fun w => (w.1, w.2.obj)) = rowsFrom cfg [pdu] := by
  have hrecords : (packetFor cfg pdu m).objects = recordsOf cfg pdu := rfl
  rw [StateStore.Call.written, if_pos (h.apply pdu wall mono).1, hrecords, rowsFrom, recordsOf,
    List.map_map]
  cases hs : isSatellite cfg pdu with
  | true => simp [hs]
  | false =>
    simp only [hs, List.filter_singleton, Bool.not_false]
    rfl

/-! ## Runs -/

variable (cfg) in
/-- The state and the history of a run against the PDUs it accepted. -/
structure Translated (expiry : Int) (w : World (disInputSource unmarshal cfg)) : Prop where
  carried : Carried cfg w.memory w.store (acceptedIn unmarshal cfg w)
  rows : (history { objectExpiry := expiry } w.calls).map (fun p => (p.1, p.2.obj)) =
    rowsFrom cfg (acceptedIn unmarshal cfg w)

variable {unmarshal}

theorem history_last (expiry : Int) (calls : List StateStore.Call) (c : StateStore.Call) :
    history { objectExpiry := expiry } (calls ++ [c]) = history { objectExpiry := expiry } calls ++
      c.written (StateStore.run { objectExpiry := expiry } calls) := by
  rw [StateStore.history_append, history, history, List.append_nil]

theorem rowsFrom_append (pdus pdus' : List EntityStatePdu) :
    rowsFrom cfg (pdus ++ pdus') = rowsFrom cfg pdus ++ rowsFrom cfg pdus' := by
  rw [rowsFrom, List.filter_append, List.map_append]
  rfl

theorem Carried.settle {expiry : Int} {m : Memory} {pdus : List EntityStatePdu}
    {calls : List StateStore.Call} {s : StateStore}
    (hs : s = StateStore.run { objectExpiry := expiry } calls) (h : Carried cfg m s pdus) (d : Datagram) :
    let pdus' := pdus ++ (admitted unmarshal cfg d.bytes m).toList
    let written := (outcome unmarshal cfg d m).toList
    Carried cfg (remember unmarshal cfg d m) (Olv.settle (outcome unmarshal cfg d m) s) pdus' ∧
    ((history { objectExpiry := expiry } calls).map (fun p => (p.1, p.2.obj)) = rowsFrom cfg pdus →
      (history { objectExpiry := expiry } (calls ++ written)).map (fun p => (p.1, p.2.obj)) =
        rowsFrom cfg pdus') := by
  rcases sections_cases unmarshal cfg d m with
    ⟨hadm, hremember, drop, houtcome⟩ | ⟨pdu, hadm, hseq, hsat, houtcome⟩
  · rw [hadm, hremember, houtcome, Option.toList_none, List.append_nil]
    cases drop with
    | none =>
      refine ⟨h, fun hrows => ?_⟩
      rw [Option.map_none, Option.toList_none, List.append_nil]
      exact hrows
    | some kind =>
      refine ⟨?_, fun hrows => ?_⟩
      · cases kind <;> exact h.congr rfl
      · rw [Option.map_some, Option.toList_some, history_last]
        exact (congrArg _ (List.append_nil _)).trans hrows
  · obtain ⟨_, _, hcarried⟩ := h.apply pdu d.wall d.mono
    rw [hadm, houtcome, Option.toList_some, Option.toList_some]
    refine ⟨hcarried _ hseq hsat, fun hrows => ?_⟩
    rw [history_last, List.map_append, hrows, ← hs, h.written, rowsFrom_append]

theorem world_translated (expiry : Int) (actions : List Action) :
    Translated unmarshal cfg expiry (world unmarshal cfg expiry actions) := by
  refine World.recorded_invariant ⟨⟨nofun, rfl, fun _ => rfl, fun h => absurd rfl h⟩, rfl⟩
    (fun w a hrec h => ?_) actions
  rcases World.step_cases (disSections unmarshal cfg) a w with
    heq | ⟨d, _, _, heq⟩ | ⟨d, _, _, heq⟩ | ⟨mono, _, heq⟩
  · rw [heq]
    exact h
  · rw [heq]
    refine ⟨h.carried.congr rfl, ?_⟩
    rw [history_last]
    exact (congrArg _ (List.append_nil _)).trans h.rows
  · rw [heq]
    have hpdus : accepted unmarshal cfg {} (w.settled ++ [d]) = acceptedIn unmarshal cfg w ++
        (admitted unmarshal cfg d.bytes w.memory).toList := by
      refine (accepted_append unmarshal {} w.settled d).trans ?_
      exact congrArg (fun m : Memory => acceptedIn unmarshal cfg w ++
        (admitted unmarshal cfg d.bytes m).toList) hrec.memory.symm
    obtain ⟨hcarried, hrows⟩ := h.carried.settle hrec.store d
    rw [← hpdus] at hcarried hrows
    exact ⟨hcarried, hrows h.rows⟩
  · rw [heq]
    refine ⟨h.carried.congr rfl, ?_⟩
    rw [history_last]
    exact (congrArg _ (List.append_nil _)).trans h.rows

/-- The rows of the table are those of the last object PDUs. -/
theorem Translated.table_row {expiry : Int} {w : World (disInputSource unmarshal cfg)}
    (hrec : World.Recorded (disSections unmarshal cfg) expiry w)
    (h : Translated unmarshal cfg expiry w) (id : U32) :
    (∀ o ∈ table w.store.objects id, ∃ pdu ∈ lastFolding cfg id (acceptedIn unmarshal cfg w),
      o.obj = pduRow pdu) ∧
    (table w.store.objects id = none → lastFolding cfg id (acceptedIn unmarshal cfg w) = none ∨
      ∃ o, lastWrite expiry w.calls id = some o ∧
        ∃ m ∈ StateStore.snapshotStamps w.calls, m - o.lastUpdate > seconds expiry) := by
  have hlast : (lastWrite expiry w.calls id).map StoredObject.obj =
      (lastFolding cfg id (acceptedIn unmarshal cfg w)).map pduRow := by
    rw [← last_rowsFrom, ← h.rows, lastWrite, LastWrite.last_map]
  have htable := StateStore.table_run expiry w.calls id
  rw [← hrec.store] at htable
  rcases htable with hsame | ⟨hgone, hpruned⟩
  · rw [hsame]
    refine ⟨fun o ho => ?_, fun hnone => .inl ?_⟩
    · rw [Option.mem_def.mp ho, Option.map_some] at hlast
      obtain ⟨pdu, hpdu, hobj⟩ := Option.map_eq_some_iff.mp hlast.symm
      exact ⟨pdu, hpdu, hobj.symm⟩
    · rw [hnone, Option.map_none] at hlast
      exact Option.map_eq_none_iff.mp hlast.symm
  · refine ⟨fun o ho => ?_, fun _ => .inr hpruned⟩
    exact absurd (hgone.symm.trans ho) (Option.some_ne_none o).symm

/-- A PDU of the satellite writes no row, and one of another entity leaves the
satellite as it is but for its sequence. -/
theorem Carried.frame {m : Memory} {s : StateStore} {pdus : List EntityStatePdu}
    (h : Carried cfg m s pdus) {d : Datagram} {pdu : EntityStatePdu}
    (hadm : admitted unmarshal cfg d.bytes m = some pdu) :
    let s' := Olv.settle (outcome unmarshal cfg d m) s
    (isSatellite cfg pdu = true → s'.objects = s.objects) ∧
    (isSatellite cfg pdu = false →
      (s'.satellite.map SatelliteState.body).getD {} = (s.satellite.map SatelliteState.body).getD {}) := by
  rcases sections_cases unmarshal cfg d m with ⟨hnone, _⟩ | ⟨pdu', hadm', hseq, hsat, houtcome⟩
  · rw [hnone] at hadm
    cases hadm
  obtain rfl := Option.some.inj (hadm.symm.trans hadm')
  obtain ⟨_, hobjects, hcarried⟩ := h.apply pdu d.wall d.mono
  rw [houtcome]
  refine ⟨fun hs => ?_, fun hs => ?_⟩
  · refine hobjects.trans ?_
    rw [recordsOf, if_pos hs]
    rfl
  · have hseen := (hcarried _ hseq hsat).seen
      (List.append_ne_nil_of_right_ne_nil _ (List.cons_ne_nil _ _))
    rw [satelliteFrom_append, hs] at hseen
    have hbefore : (s.satellite.map SatelliteState.body).getD {} = satelliteFrom cfg pdus := by
      by_cases hnil : pdus = []
      · rw [h.unseen hnil, hnil]
        rfl
      · rw [h.seen hnil, Option.getD_some]
    rw [hbefore]
    exact congrArg (fun sat : Option SatelliteState => sat.getD {}) hseen

/-- **Satellite and objects stay apart** in every state of a DIS run. No packet is
stale, the satellite is that of the last satellite PDU accepted, every row is
that of the last PDU of another entity folding to its id, and neither kind of
PDU touches what the other one writes. -/
theorem translation_apart (unmarshal : List Wire.Byte → Option EntityStatePdu) (cfg : Config)
    (expiry : Int) (actions : List Action) :
    let w := world unmarshal cfg expiry actions
    let pdus := acceptedIn unmarshal cfg w
    (∀ d pkt wall mono, outcome unmarshal cfg d w.memory = some (.apply pkt wall mono) →
      (w.store.apply pkt wall mono).1 = .kApplied) ∧
    (pdus = [] → w.store.satellite = none) ∧
    (pdus ≠ [] → w.store.satellite.map SatelliteState.body = some (satelliteFrom cfg pdus)) ∧
    (∀ id, (∀ o ∈ table w.store.objects id, ∃ pdu ∈ lastFolding cfg id pdus,
        o.obj = pduRow pdu) ∧
      (table w.store.objects id = none → lastFolding cfg id pdus = none ∨
        ∃ o, lastWrite expiry w.calls id = some o ∧
          ∃ m ∈ StateStore.snapshotStamps w.calls, m - o.lastUpdate > seconds expiry)) ∧
    ∀ d pdu, w.pending = some d → admitted unmarshal cfg d.bytes w.memory = some pdu →
      let s' := (w.step (disSections unmarshal cfg) .settle).store
      (isSatellite cfg pdu = true → s'.objects = w.store.objects) ∧
      (isSatellite cfg pdu = false →
        (s'.satellite.map SatelliteState.body).getD {} = (w.store.satellite.map SatelliteState.body).getD {}) := by
  intro w pdus
  have hrec : World.Recorded (disSections unmarshal cfg) expiry w := World.run_recorded expiry actions
  have h : Translated unmarshal cfg expiry w := world_translated expiry actions
  refine ⟨fun d pkt wall mono hcall => ?_, h.carried.unseen, h.carried.seen, h.table_row hrec,
    fun d pdu hpending hadm => ?_⟩
  · rcases sections_cases unmarshal cfg d w.memory with
      ⟨_, _, drop, houtcome⟩ | ⟨pdu, _, _, _, houtcome⟩
    · cases drop <;> cases houtcome.symm.trans hcall
    · obtain ⟨rfl, rfl, rfl⟩ := StateStore.Call.apply.inj (Option.some.inj (houtcome.symm.trans hcall))
      exact (h.carried.apply pdu d.wall d.mono).1
  · have hsettled : (w.step (disSections unmarshal cfg) .settle).store =
        Olv.settle (outcome unmarshal cfg d w.memory) w.store := by
      simp only [World.step, hpending]
      rfl
    rw [hsettled]
    exact h.carried.frame hadm

end Olv.DisInputSource
