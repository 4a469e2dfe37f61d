import OrbitalViewer.InputSource
import OrbitalViewer.ProtocolDecode

/-!
# The OLV1 source

`Olv1InputSource::handleDatagram`. Its only memory, the last sequence, is the
store's.
-/

namespace Olv.Olv1InputSource

def handleDatagram (d : Datagram) (store : StateStore) : Processed Unit :=
  let store := store.countReceived d.bytes.length
  let (err, pkt) := Proto.decoded d.bytes {}
  if err ≠ .kNone then
    { outcome := .malformed err.toString
      log := [⟨.kWarn, "udp", "dropped " ++ err.toString ++ " len=" ++ toString d.bytes.length ++
        " from=" ++ d.sender⟩]
      memory := ()
      store := store.countDropped .kMalformed }
  else
    let (res, store) := store.apply pkt d.wall d.mono
    if res = .kStaleSequence then
      { outcome := .stale
        log := [⟨.kDebug, "udp", "dropped stale seq=" ++ toString pkt.sequence.toNat ++
          " from=" ++ d.sender⟩]
        memory := ()
        store }
    else
      { outcome := .accepted
        log := [⟨.kDebug, "udp", "accepted seq=" ++ toString pkt.sequence.toNat ++
          " objs=" ++ toString pkt.objects.length ++ " total=" ++ toString pkt.objectTotal.toNat ++
          " from=" ++ d.sender⟩]
        memory := ()
        store }

/-- A datagram is refused whatever the store holds, or its packet is applied. -/
theorem handleDatagram_cases (d : Datagram) :
    (Proto.verdict d.bytes ≠ .kNone ∧ ∃ reason log, ∀ store, handleDatagram d store =
      refused (.malformed reason) log (some .kMalformed) () (store.countReceived d.bytes.length)) ∨
    (Proto.verdict d.bytes = .kNone ∧ ∀ store, ∃ log, handleDatagram d store =
      let r := (store.countReceived d.bytes.length).apply (Proto.packetAt d.bytes) d.wall d.mono
      ⟨if r.1 = .kStaleSequence then .stale else .accepted, log, (), r.2⟩) := by
  by_cases hv : Proto.verdict d.bytes = .kNone
  · refine .inr ⟨hv, fun store => ?_⟩
    simp only [handleDatagram, Proto.decoded_eq, hv, ne_eq, not_true_eq_false, if_false, if_true]
    split
    · exact ⟨_, rfl⟩
    · exact ⟨_, rfl⟩
  · exact .inl ⟨hv, (Proto.verdict d.bytes).toString, _, fun store => by
      simp only [handleDatagram, Proto.decoded_eq, hv, ne_eq, not_false_eq_true, if_true]
      rfl⟩

end Olv.Olv1InputSource

namespace Olv

def olv1InputSource : InputSource where
  Memory := Unit
  init := ()
  processDatagram d _ store := Olv1InputSource.handleDatagram d store

end Olv
