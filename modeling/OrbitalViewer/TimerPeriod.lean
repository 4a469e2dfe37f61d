import OrbitalViewer.SimIntegers

/-!
# Timer periods

The period of the broadcast timer and that of the simulator's send loop, which
are the inverse of a rate cut to 64 bits. Rates and quotients are exact. A rate
is checked from above only, so a period is positive but may not fit
(`timer_period_iff`).
-/

namespace Olv
open Ieee (F64)
open Settings (Assignment)
open Toml (IsInt64)

/-! ## Conversions -/

/-- An integer of 64 bits, where there is one. -/
def toInt64 (n : ℤ) : Option ℤ := if IsInt64 n then some n else none

/-- A number without its fraction. -/
def truncate (q : ℚ) : ℤ := if 0 ≤ q then ⌊q⌋ else ⌈q⌉

/-- `armTimer`: milliseconds, and then nanoseconds of the clock. -/
def WsServer.period (hz : ℚ) : Option ℤ := do
  let ms ← toInt64 (truncate (1000 / hz))
  toInt64 (ms * 1000000)

/-- The simulator's: seconds cast to nanoseconds of the clock. -/
def Sim.period (rate : ℚ) : Option ℤ := toInt64 (truncate (1 / rate * 1000000000))

/-- Every conversion succeeds, and the clock goes forward. -/
def Usable (period : Option ℤ) : Prop := ∃ ns, period = some ns ∧ 0 < ns

theorem toInt64_eq_some {n m : ℤ} : toInt64 n = some m ↔ IsInt64 n ∧ n = m := by
  unfold toInt64
  split <;> simp [*]

theorem truncate_pos {q : ℚ} (hq : 0 < q) : truncate q = ⌊q⌋ := if_pos hq.le

theorem WsServer.period_usable {hz : ℚ} (hpos : 0 < hz) (hle : hz ≤ 60) :
    Usable (WsServer.period hz) ↔ 1000 < 9223372036855 * hz := by
  have hquot : 0 < 1000 / hz := by positivity
  have hfast : 1 ≤ ⌊1000 / hz⌋ := by
    rw [Int.le_floor, le_div_iff₀ hpos]
    push_cast
    linarith
  have hslow : 1000 < 9223372036855 * hz ↔ ⌊1000 / hz⌋ < 9223372036855 := by
    rw [Int.floor_lt, div_lt_iff₀ hpos]
    norm_num
  rw [hslow]
  unfold Usable WsServer.period
  simp only [truncate_pos hquot, Option.bind_eq_bind, Option.bind_eq_some_iff, toInt64_eq_some]
  constructor
  · rintro ⟨ns, ⟨ms, ⟨_, rfl⟩, hns, _⟩, _⟩
    have := hns.2
    omega
  · intro h
    refine ⟨_, ⟨_, ⟨⟨?_, ?_⟩, rfl⟩, ⟨?_, ?_⟩, rfl⟩, ?_⟩ <;> omega

theorem Sim.period_usable {rate : ℚ} (hpos : 0 < rate) (hle : rate ≤ 50) :
    Usable (Sim.period rate) ↔ 10 ^ 9 < 2 ^ 63 * rate := by
  have hquot : 0 < 1 / rate * 1000000000 := by positivity
  have hfast : 1 ≤ ⌊1 / rate * 1000000000⌋ := by
    rw [Int.le_floor, div_mul_eq_mul_div, le_div_iff₀ hpos]
    push_cast
    linarith
  have hslow : 10 ^ 9 < 2 ^ 63 * rate ↔ ⌊1 / rate * 1000000000⌋ < 2 ^ 63 := by
    rw [Int.floor_lt, div_mul_eq_mul_div, div_lt_iff₀ hpos]
    norm_num
  rw [hslow]
  unfold Usable Sim.period
  simp only [truncate_pos hquot, toInt64_eq_some]
  constructor
  · rintro ⟨ns, ⟨⟨_, hns⟩, rfl⟩, _⟩
    omega
  · intro h
    refine ⟨_, ⟨⟨?_, ?_⟩, rfl⟩, ?_⟩ <;> omega

/-! ## Accepted rates -/

theorem validHz_default (path : List Char) :
    validHz ({ configFile := path } : Config).broadcastHz = true := by
  show validHz (toDouble 1) = true
  decide +kernel

/-- A setting other than the rate leaves it alone. -/
theorem Config.set_hz {cfg : Config} {a : Assignment Setting.Field}
    (ha : ∀ v, a = ⟨.broadcastHz, v⟩ → validHz v = true) (h : validHz cfg.broadcastHz = true) :
    validHz (cfg.set a).broadcastHz = true := by
  obtain ⟨s, v⟩ := a
  cases s with
  | broadcastHz => exact ha v rfl
  | _ => exact h

theorem readFile_hz {path : List Char} {v : Toml.Value} {hz : F64}
    (h : Setting.broadcastHz.readFile path v = .ok hz) : validHz hz = true := by
  obtain ⟨_, _, h⟩ := Sim.bind_ok h
  split at h
  · rename_i hvalid
    exact Except.ok.inj h ▸ hvalid
  · cases h

theorem applyEntry_hz {path : List Char} (cfg : Config) (e : List Char × Toml.Value) (cfg' : Config)
    (hcfg : validHz cfg.broadcastHz = true) (h : applyEntry path cfg e = .ok cfg') :
    validHz cfg'.broadcastHz = true := by
  unfold applyEntry at h
  split at h
  · cases h
  · rename_i s _
    split at h
    · cases h
    · rename_i w hw
      obtain rfl := Except.ok.inj h
      refine Config.set_hz ?_ hcfg
      rintro v ⟨⟩
      exact readFile_hz hw

theorem readFlag_hz {value : List Char} {hz : F64}
    (h : ValueFlag.broadcastHz.read value = .ok hz) : validHz hz = true := by
  dsimp only [ValueFlag.read] at h
  split at h
  · cases h
  · split at h
    · rename_i hvalid
      exact Except.ok.inj h ▸ hvalid
    · cases h

theorem applyFlag_hz {cfg cfg' : Config} {f : ValueFlag} {value : List Char}
    (hcfg : validHz cfg.broadcastHz = true) (h : applyFlag cfg f value = .ok cfg') :
    validHz cfg'.broadcastHz = true := by
  unfold applyFlag at h
  split at h
  · cases h
  · rename_i w hw
    obtain rfl := Except.ok.inj h
    refine Config.set_hz ?_ hcfg
    intro v hv
    cases f with
    | broadcastHz =>
      cases hv
      exact readFlag_hz hw
    | _ => cases hv

theorem checkMerged_ok {cfg cfg' : Config} (h : checkMerged cfg = .ok cfg') : cfg' = cfg := by
  unfold checkMerged at h
  split at h
  · cases h
  · exact (Except.ok.inj h).symm

theorem applyArgs_hz {cfg cfg' : Config} {args : List (List Char)}
    (hcfg : validHz cfg.broadcastHz = true) (h : applyArgs cfg args = .ok cfg') :
    validHz cfg'.broadcastHz = true := by
  fun_induction applyArgs cfg args with
  | case1 => exact checkMerged_ok h ▸ hcfg
  | case2 => exact checkMerged_ok h ▸ hcfg
  | case3 _ _ _ ih => exact ih hcfg h
  | case4 => exact Except.ok.inj h ▸ hcfg
  | case5 _ _ _ _ ih => exact ih hcfg h
  | case6 => cases h
  | case7 => cases h
  | case8 => cases h
  | case9 _ _ _ _ _ _ _ _ _ _ hflag ih => exact ih (applyFlag_hz hcfg hflag) h

/-- The rate of an accepted configuration passed its check. -/
theorem parseArgs_hz {strtod : Toml.Strtod} {files : Toml.Files} {args : List (List Char)}
    {cfg : Config} (h : parseArgs strtod files args = .ok cfg) : validHz cfg.broadcastHz = true := by
  unfold parseArgs at h
  obtain ⟨path, _, h⟩ := Sim.bind_ok h
  cases path with
  | none => exact applyArgs_hz (validHz_default []) h
  | some path =>
    obtain ⟨base, hbase, h⟩ := Sim.bind_ok h
    refine applyArgs_hz ?_ h
    unfold applyConfigFile at hbase
    dsimp only at hbase
    split at hbase
    · cases hbase
    · exact FirstFailure.passes_keeps (P := fun cfg : Config => validHz cfg.broadcastHz = true)
        applyEntry_hz hbase (validHz_default path)

end Olv

namespace Olv.Sim
open Ieee (F64)
open Settings (Assignment lastOf)

theorem validRateHz_default (path : List Char) :
    validRateHz ({ configFile := path } : SimConfig).rateHz = true := by
  show validRateHz (toDouble 1) = true
  decide +kernel

/-- Assignments keep the rate valid when those to it do. -/
theorem assign_rate {cfg : SimConfig} {as : List (Assignment Setting.Field)}
    (has : ∀ r, ⟨.rateHz, r⟩ ∈ as → validRateHz r = true) (h : validRateHz cfg.rateHz = true) :
    validRateHz (simFields.assign cfg as).rateHz = true := by
  have hget : (simFields.assign cfg as).rateHz = (lastOf .rateHz as).getD cfg.rateHz :=
    simFields.get_assign cfg as .rateHz
  rw [hget]
  cases hlast : lastOf Setting.rateHz as with
  | none => exact h
  | some r => exact has r (Settings.mem_of_lastOf hlast)

theorem readFile_rate {path : List Char} {v : Toml.Value} {r : F64}
    (h : Setting.rateHz.readFile path v = .ok r) : validRateHz r = true := by
  cases v with
  | string | boolean => cases h
  | _ =>
    obtain ⟨_, _, h⟩ := bind_ok h
    dsimp only at h
    split at h
    · rename_i hvalid
      exact Except.ok.inj h ▸ hvalid
    · cases h

theorem readFlag_rate {f : ValueFlag} {value : List Char} {as : List (Assignment Setting.Field)}
    (h : f.read (some value) = .ok as) {r : F64} (hr : ⟨.rateHz, r⟩ ∈ as) :
    validRateHz r = true := by
  cases f with
  | rate =>
    obtain ⟨q, hq, h⟩ := bind_ok h
    obtain rfl := Except.ok.inj h
    obtain ⟨⟩ := List.mem_singleton.mp hr
    unfold ValueFlag.want at hq
    split at hq
    · rename_i q' hq'
      obtain rfl := Except.ok.inj hq
      exact (Option.filter_eq_some_iff.mp hq').2
    · cases hq
  | csv | dest =>
    obtain rfl := Except.ok.inj h
    simp at hr
  | _ =>
    obtain ⟨_, _, h⟩ := bind_ok h
    obtain rfl := Except.ok.inj h
    simp at hr

theorem finish_rate {st : State} {cfg : SimConfig} (hst : validRateHz st.cfg.rateHz = true)
    (h : finish st = .ok cfg) : validRateHz cfg.rateHz = true := by
  obtain rfl := finish_ok h
  have hsame : (withDefaultPort st.cfg).rateHz = st.cfg.rateHz :=
    withDefaultPort_get st.cfg (show Setting.rateHz ≠ .destPort by decide)
  rw [hsame]
  exact hst

theorem applyFlag_rate {st st' : State} {f : ValueFlag} {value : List Char}
    (hst : validRateHz st.cfg.rateHz = true) (h : applyFlag st f (some value) = .ok st') :
    validRateHz st'.cfg.rateHz = true := by
  unfold applyFlag at h
  split at h
  · cases h
  · rename_i as has
    obtain rfl := Except.ok.inj h
    exact assign_rate (fun r hr => readFlag_rate has hr) hst

theorem applyArgs_rate {st : State} {args : List (List Char)} {cfg : SimConfig}
    (hst : validRateHz st.cfg.rateHz = true) (h : applyArgs st args = .ok cfg) :
    validRateHz cfg.rateHz = true := by
  fun_induction applyArgs st args with
  | case1 => exact finish_rate hst h
  | case2 => exact finish_rate hst h
  | case3 _ _ _ ih => exact ih hst h
  | case4 => exact Except.ok.inj h ▸ hst
  | case5 _ _ _ _ ih => exact ih hst h
  | case6 _ _ _ _ _ ih => exact ih hst h
  | case7 => cases h
  | case8 => cases h
  | case9 st arg _ _ _ _ f _ st' hflag =>
    unfold applyFlag at hflag
    split at hflag
    · cases hflag
    · rename_i as has
      exact absurd has read_none
  | case10 => cases h
  | case11 _ _ _ _ _ _ _ _ _ _ _ hflag ih => exact ih (applyFlag_rate hst hflag) h

/-- The rate of an accepted configuration passed its check. -/
theorem parseSimArgs_rate {strtod : Toml.Strtod} {files : Toml.Files} {args : List (List Char)}
    {cfg : SimConfig} (h : parseSimArgs strtod files args = .ok cfg) :
    validRateHz cfg.rateHz = true := by
  unfold parseSimArgs at h
  obtain ⟨path, _, h⟩ := bind_ok h
  cases path with
  | none =>
    refine applyArgs_rate ?_ h
    exact validRateHz_default []
  | some path =>
    obtain ⟨base, hbase, h⟩ := bind_ok h
    refine applyArgs_rate ?_ h
    obtain rfl := applySimConfigFile_assigns hbase
    refine assign_rate ?_ (validRateHz_default path)
    intro r hr
    obtain ⟨s, _, hs⟩ := List.mem_flatMap.mp hr
    obtain ⟨_, hvalue⟩ := mem_fileAssignments.mp hs
    obtain ⟨v, _, hv⟩ := Option.bind_eq_some_iff.mp hvalue
    have hread := (Setting.readFile_meaning path _ v).trans hv
    exact readFile_rate (FirstFailure.ok_of_toOption hread)

end Olv.Sim

namespace Olv

/-- **A rate must not be too small.** The period of an accepted rate is usable exactly
when the rate is above about a tenth of a nanohertz. -/
theorem timer_period_iff (strtod : Toml.Strtod) (files : Toml.Files) (args : List (List Char)) :
    (∀ cfg, parseArgs strtod files args = .ok cfg →
      (Usable (WsServer.period cfg.broadcastHz.datum.toRat) ↔
        1000 < 9223372036855 * cfg.broadcastHz.datum.toRat)) ∧
    (∀ cfg, Sim.parseSimArgs strtod files args = .ok cfg →
      (Usable (Sim.period cfg.rateHz.datum.toRat) ↔ 10 ^ 9 < 2 ^ 63 * cfg.rateHz.datum.toRat)) := by
  constructor
  · intro cfg h
    have hvalid := parseArgs_hz h
    rw [validHz_eq] at hvalid
    obtain ⟨_, hpos, hle⟩ := validRate_iff.mp hvalid
    exact WsServer.period_usable hpos hle
  · intro cfg h
    obtain ⟨_, hpos, hle⟩ := validRate_iff.mp (Sim.parseSimArgs_rate h)
    exact Sim.period_usable hpos hle

def slowArgs : List (List Char) := ["--broadcast-hz".toList, "1e-12".toList]

/-- A rate of 1e-12 Hz is accepted, and its milliseconds overflow as nanoseconds. -/
theorem slowRate_overflows :
    ∃ cfg, parseArgs Toml.strict (fun _ => none) slowArgs = .ok cfg ∧
      ¬ Usable (WsServer.period cfg.broadcastHz.datum.toRat) := by
  have hcfg : (parseArgs Toml.strict (fun _ => none) slowArgs).toOption.map
      (fun cfg => WsServer.period cfg.broadcastHz.datum.toRat) = some none := by
    decide +kernel
  obtain ⟨cfg, hparse, hperiod⟩ := Option.map_eq_some_iff.mp hcfg
  refine ⟨cfg, FirstFailure.ok_of_toOption hparse, ?_⟩
  rintro ⟨ns, hns, _⟩
  exact nomatch hperiod.symm.trans hns

end Olv
