import Konfig.Flamediff.CheckedFrames
import Konfig.Flamediff.CheckedPprof
import Konfig.Flamediff.Gate
import Konfig.Json

/-!
# The tool

`main.rs` with the loaders of `flamebearer.rs` and `gate.rs`: what a command reads, what it
calls and the code the process exits with.  An error is bad input; a panic ends the process
with a code of its own.

* `fromValue`: a profile out of a JSON value; only its outer shape is looked at.
* `gate_of_written`: what the gate marks of files that the tool wrote.
* `run_gate_exits`: the gate always ends with a documented code.
* `malformed_profiles_iff`: exactly when a JSON value cannot crash the tool.
-/

namespace Konfig

/-- `Value::as_i64`. -/
def Value.asI64 : Value → Option ℤ
  | .number (.posInt n) => if n.toNat < 2 ^ 63 then some n.toNat else none
  | .number (.negInt n) => some n
  | _ => none

/-- `Value::as_str`. -/
def Value.asStr : Value → Option String
  | .string s => some s
  | _ => none

/-- `Value::as_array`. -/
def Value.asArray : Value → Option (List Value)
  | .array xs => some xs
  | _ => none

/-- `Value::is_object`. -/
def Value.isObject : Value → Bool
  | .object _ => true
  | _ => false

namespace Flamediff

open Lib Lib.Protobuf

/-- What the tool takes from outside: files, the JSON and regular expression libraries, and the
order in which a hash map hands out its values. -/
structure Environment where
  readToString : String → Except String String
  fromStr : String → Except String Value
  regex : String → Except String (String → Bool)
  asF64 : Number → ℚ
  framesToJson : List (String × ℚ) → Bytes
  write : String → Bytes → Except String Unit
  values : List ℤ → List ℤ
  values_perm : ∀ l, (values l).Perm l

/-- The functions on names, units and rates that a profile is read with. -/
structure Reading where
  demangle : String → String
  toLowercase : String → String
  ns : ℤ → ℤ

/-! ### Loading -/

section

variable (reading : Reading)

/-- The rows of a profile. -/
def levelsOf (path : String) (levels : List Value) : Except String (List (List ℤ)) :=
  levels.mapM fun lvl =>
    match lvl.asArray with
    | some row => .ok (row.map fun n => n.asI64.getD 0)
    | none => .error (path ++ ": a level is not an array")

/-- `load`, after the text is parsed. -/
def fromValue (path : String) (raw : Value) : Except String Flamebearer :=
  let fb := (raw.get "flamebearer").getD raw
  match (fb.get "names").bind Value.asArray with
  | none => .error (path ++ ": missing flamebearer.names array")
  | some names =>
    match (fb.get "levels").bind Value.asArray with
    | none => .error (path ++ ": missing flamebearer.levels array")
    | some levels =>
      match levelsOf path levels with
      | .error e => .error e
      | .ok levels =>
        let metadata := raw.get "metadata"
        .ok {
          names := names.map fun v => reading.demangle (v.asStr.getD "")
          levels
          numTicks := ((fb.get "numTicks").bind Value.asI64).getD 0
          sampleRate := ((metadata.bind (·.get "sampleRate")).bind Value.asI64).getD 0
          units := reading.toLowercase (((metadata.bind (·.get "units")).bind Value.asStr).getD "samples") }

/-- `load`. -/
def load (env : Environment) (path : String) : Except String Flamebearer := do
  let text ← (env.readToString path).mapError fun e => "read " ++ path ++ ": " ++ e
  let raw ← (env.fromStr text).mapError fun e => "invalid JSON in " ++ path ++ ": " ++ e
  fromValue reading path raw

end

/-- One frame of a top-frames file. -/
def frameOf (env : Environment) (path : String) (i : ℕ) (fr : Value) : Except String (String × ℚ) :=
  match (fr.get "name").bind Value.asStr, fr.get "self_pct" with
  | some name, some (.number n) => .ok (name, env.asF64 n)
  | some _, some _ => .error (path ++ ": frame[" ++ toString i ++ "].self_pct not a number")
  | _, _ => .error (path ++ ": frame[" ++ toString i ++ "] must have 'name' and 'self_pct'")

/-- Later frames of a name replace earlier ones. -/
def ByName.ofFrames (frames : List (String × ℚ)) : Profile where
  rows := frames.pwFilter fun a b => a.1 ≠ b.1
  nodup := by
    rw [List.Nodup, List.pairwise_map]
    exact List.pairwise_pwFilter frames

/-- `load_frames`. -/
def loadFrames (env : Environment) (path : String) : Except String Profile := do
  let text ← (env.readToString path).mapError fun _ => "profile file not found: " ++ path
  let raw ← (env.fromStr text).mapError fun e => "invalid JSON in " ++ path ++ ": " ++ e
  let frames := if raw.isObject then (raw.get "frames").getD raw else raw
  match frames.asArray with
  | none => .error (path ++ ": expected a 'frames' list")
  | some arr => do
    let frames ← (arr.zipIdx).mapM fun (fr, i) => frameOf env path i fr
    return ByName.ofFrames frames

/-- The frames of a file are read as they were written. -/
theorem ByName.ofFrames_rows (p : Profile) : ByName.ofFrames p.rows = p := by
  have hrows : p.rows.pwFilter (fun a b => a.1 ≠ b.1) = p.rows :=
    List.pwFilter_eq_self.mpr (List.pairwise_map.mp p.nodup)
  obtain ⟨rows, nodup⟩ := p
  unfold ByName.ofFrames
  congr 1

/-- **The gate on two files that the tool wrote** marks a frame that does not grow in the full profiles
exactly if the baseline file was cut off above it, or a limit is set below it. -/
theorem gate_of_written {order : List ℤ → List ℤ} (horder : ∀ l, (order l).Perm l) {old new : Flamebearer} {n : ℕ}
    {exclude : Option (String → Bool)} {oldFrames newFrames : List (String × ℚ)}
    (hold : old.topFramesChecked order n exclude = .ok oldFrames)
    (hnew : new.topFramesChecked order n exclude = .ok newFrames)
    (threshold : ℚ) (top : ℕ) (minBasePct newFrameFloorPct : ℚ) :
    ∃ p q, old.profile exclude = some p ∧ new.profile exclude = some q ∧ ∀ f, q.pct f ≤ p.pct f →
      ((∃ row ∈ diff (.ofFrames newFrames) (.ofFrames oldFrames) threshold top minBasePct newFrameFloorPct,
        row.name = f ∧ row.regressed = true) ↔
      CutOff p q n top minBasePct newFrameFloorPct f ∨
        BelowLimit p q n threshold top minBasePct newFrameFloorPct f) := by
  obtain ⟨p, hp, rfl⟩ := Flamebearer.topFramesChecked_eq horder hold
  obtain ⟨q, hq, rfl⟩ := Flamebearer.topFramesChecked_eq horder hnew
  rw [ByName.ofFrames_rows, ByName.ofFrames_rows]
  exact ⟨p, q, hp, hq, fun f hle => marked_iff hle⟩

/-! ### The markdown of the gate -/

/-- A relative change in percent, with its sign. -/
def RelDelta.signed : RelDelta → String
  | .finite q => (if q < 0 then "" else "+") ++ fixed 0 (q * 100)
  | .posInf => "+inf"
  | .negInf => "-inf"
  | .nan => "NaN"

/-- One line of the table. -/
def Row.markdown (r : Row) : String :=
  let delta := match r.relDelta with
    | none => if 0 < r.curPct then "new" else "—"
    | some d => d.signed ++ "%"
  let flag := if r.regressed then "❌" else ""
  let note := if r.reason = "" then "" else " " ++ r.reason
  "| `" ++ r.name ++ "` | " ++ fixed 1 r.basePct ++ "% | " ++ fixed 1 r.curPct ++ "% | " ++ delta ++ " |" ++
    flag ++ note ++ " |\n"

def renderMarkdown (rows : List Row) (threshold : ℚ) (top : ℕ) : String :=
  let regressions := (rows.filter Row.regressed).length
  let verdict :=
    if regressions > 0 then
      "❌ **" ++ toString regressions ++ " frame(s) regressed** (relative self-% gate: " ++
        fixed 0 (threshold * 100) ++ "%, top-" ++ toString top ++ ").\n"
    else
      "✅ No top-" ++ toString top ++ " frame regressed beyond the " ++ fixed 0 (threshold * 100) ++
        "% relative self-% gate.\n"
  "## Flamediff — top-frame CPU regression gate\n\n" ++ verdict ++
    "\n| frame | baseline self% | current self% | Δ | |\n|---|---|---|---|---|\n" ++
    String.join (rows.map Row.markdown)

/-! ### Commands -/

def EXIT_OK : UInt8 := 0

def EXIT_REGRESSION : UInt8 := 1

def EXIT_INPUT : UInt8 := 2

/-- The code of a process that panicked. -/
def EXIT_PANIC : UInt8 := 101

inductive Cmd
  | topFrames (input : String) (top : ℕ) (exclude output : Option String)
  | toPprof (input output : String)
  | gate (current baseline : String) (threshold : ℚ) (top : ℕ) (minBasePct newFrameFloorPct : ℚ)
      (output : Option String)

/-- The profile a command loads. -/
def Cmd.profile : Cmd → Option String
  | .topFrames input _ _ _ => some input
  | .toPprof input _ => some input
  | .gate .. => none

/-- A step of a command: it may fail, and it may panic. -/
abbrev Tool := ExceptT String Checked

def Tool.result {α : Type} (x : Except String α) : Tool α := ExceptT.mk (.ok x)

section

variable (reading : Reading) (env : Environment)

/-- `std::fs::write`. -/
def writeFile (path : String) (contents : Bytes) : Tool Unit :=
  Tool.result ((env.write path contents).mapError fun e => "write " ++ path ++ ": " ++ e)

def writeOrPrint (output : Option String) (contents : Bytes) : Tool Unit :=
  match output with
  | some path => writeFile env path contents
  | none => pure ()

def cmdTopFrames (input : String) (top : ℕ) (exclude output : Option String) : Tool UInt8 := do
  let re ← match exclude with
    | some pat => do
      let re ← Tool.result ((env.regex pat).mapError fun e => "bad --exclude regex: " ++ e)
      pure (some re)
    | none => pure none
  let fb ← Tool.result (load reading env input)
  let frames ← ExceptT.lift (fb.topFramesChecked env.values top re)
  writeOrPrint env output (env.framesToJson frames)
  return EXIT_OK

def cmdToPprof (input output : String) : Tool UInt8 := do
  let fb ← Tool.result (load reading env input)
  let bytes ← ExceptT.lift (fb.toPprofChecked reading.ns)
  writeFile env output bytes
  return EXIT_OK

def cmdGate (current baseline : String) (threshold : ℚ) (top : ℕ) (minBasePct newFrameFloorPct : ℚ)
    (output : Option String) : Tool UInt8 := do
  let cur ← Tool.result (loadFrames env current)
  let base ← Tool.result (loadFrames env baseline)
  let rows := diff cur base threshold top minBasePct newFrameFloorPct
  let md := renderMarkdown rows threshold top
  match output with
  | some path => writeFile env path (utf8 md)
  | none => pure ()
  return if rows.any Row.regressed then EXIT_REGRESSION else EXIT_OK

/-- `run`. -/
def runCmd : Cmd → Tool UInt8
  | .topFrames input top exclude output => cmdTopFrames reading env input top exclude output
  | .toPprof input output => cmdToPprof reading env input output
  | .gate current baseline threshold top minBasePct newFrameFloorPct output =>
    cmdGate env current baseline threshold top minBasePct newFrameFloorPct output

end

/-- `main`: the code the process exits with. -/
def exitCode (x : Tool UInt8) : UInt8 :=
  match x.run with
  | .ok (.ok code) => code
  | .ok (.error _) => EXIT_INPUT
  | .error _ => EXIT_PANIC

/-- The documented exit codes. -/
def documented : List UInt8 := [EXIT_OK, EXIT_REGRESSION, EXIT_INPUT]

/-! ### How a command ends -/

section

variable {α : Type} {x : Except String α} {f : α → Tool UInt8}

theorem result_ok_bind (a : α) : Tool.result (.ok a) >>= f = f a := rfl

theorem exitCode_error {e : String} (hx : x = .error e) : exitCode (Tool.result x >>= f) = EXIT_INPUT := by
  rw [hx]
  rfl

/-- Past a step that cannot panic. -/
theorem documented_result (hf : ∀ a, x = .ok a → exitCode (f a) ∈ documented) :
    exitCode (Tool.result x >>= f) ∈ documented := by
  cases hx : x with
  | error e =>
    rw [exitCode_error rfl]
    decide
  | ok a => exact hf a hx

/-- Past a computation that is known to return. -/
theorem documented_lift {y : Checked α} (hy : ∃ a, y = .ok a) (hf : ∀ a, exitCode (f a) ∈ documented) :
    exitCode (ExceptT.lift y >>= f) ∈ documented := by
  obtain ⟨a, rfl⟩ := hy
  exact hf a

end

section

variable {reading : Reading} {env : Environment} {path : String} {contents : Bytes}

theorem documented_writeFile {code : UInt8} (hcode : code ∈ documented) :
    exitCode (writeFile env path contents >>= fun _ => pure code) ∈ documented :=
  documented_result fun _ _ => hcode

theorem documented_writeOrPrint (output : Option String) {code : UInt8} (hcode : code ∈ documented) :
    exitCode (writeOrPrint env output contents >>= fun _ => pure code) ∈ documented := by
  cases output with
  | none => exact hcode
  | some path => exact documented_writeFile hcode

/-- A file holds a JSON value. -/
def Environment.Holds (env : Environment) (path : String) (raw : Value) : Prop :=
  ∃ text, env.readToString path = .ok text ∧ env.fromStr text = .ok raw

theorem load_eq (reading : Reading) {raw : Value} (h : env.Holds path raw) :
    load reading env path = fromValue reading path raw := by
  obtain ⟨text, htext, hraw⟩ := h
  rw [load, htext]
  change ((env.fromStr text).mapError _ >>= _) = _
  rw [hraw]
  rfl

/-- The profile is loaded after the regular expression. -/
theorem cmdTopFrames_eq (reading : Reading) (env : Environment) (path : String) (top : ℕ)
    (exclude output : Option String) :
    ∃ re : Except String (Option (String → Bool)), cmdTopFrames reading env path top exclude output = do
      let re ← Tool.result re
      let fb ← Tool.result (load reading env path)
      let frames ← ExceptT.lift (fb.topFramesChecked env.values top re)
      writeOrPrint env output (env.framesToJson frames)
      return EXIT_OK := by
  cases exclude with
  | none => exact ⟨.ok none, rfl⟩
  | some pat =>
    refine ⟨((env.regex pat).mapError fun e => "bad --exclude regex: " ++ e).map some, ?_⟩
    rw [cmdTopFrames]
    cases env.regex pat <;> rfl

theorem cmdTopFrames_documented {top : ℕ} {exclude output : Option String}
    (h : ∀ fb, load reading env path = .ok fb → ∀ re, ∃ rows, fb.topFramesChecked env.values top re = .ok rows) :
    exitCode (cmdTopFrames reading env path top exclude output) ∈ documented := by
  obtain ⟨re, hre⟩ := cmdTopFrames_eq reading env path top exclude output
  rw [hre]
  refine documented_result fun re _ => documented_result fun fb hfb => ?_
  exact documented_lift (h fb hfb re) fun rows => documented_writeOrPrint output (by decide)

theorem cmdToPprof_documented {output : String}
    (h : ∀ fb, load reading env path = .ok fb → ∃ bytes, fb.toPprofChecked reading.ns = .ok bytes) :
    exitCode (cmdToPprof reading env path output) ∈ documented :=
  documented_result fun fb hfb => documented_lift (h fb hfb) fun _ => documented_writeFile (by decide)

/-- **The gate never panics**, whatever its files hold. -/
theorem run_gate_exits (current baseline : String) (threshold : ℚ) (top : ℕ)
    (minBasePct newFrameFloorPct : ℚ) (output : Option String) :
    exitCode (cmdGate env current baseline threshold top minBasePct newFrameFloorPct output) ∈ documented := by
  refine documented_result fun cur _ => documented_result fun base _ => ?_
  have hcode : ∀ regressed : Bool, (if regressed then EXIT_REGRESSION else EXIT_OK) ∈ documented := by decide
  cases output with
  | none => exact hcode _
  | some path => exact documented_writeFile (hcode _)

end

/-! ### Bad input -/

/-- A file the command needs is missing or of the wrong shape. -/
def Cmd.BadInput (reading : Reading) (env : Environment) : Cmd → Prop
  | .topFrames input _ _ _ | .toPprof input _ => ∃ e, load reading env input = .error e
  | .gate current baseline _ _ _ _ _ =>
    (∃ e, loadFrames env current = .error e) ∨ ∃ e, loadFrames env baseline = .error e

/-- **Bad input** gives its exit code. -/
theorem exitCode_badInput {reading : Reading} {env : Environment} {cmd : Cmd} (h : cmd.BadInput reading env) :
    exitCode (runCmd reading env cmd) = EXIT_INPUT := by
  cases cmd with
  | topFrames input top exclude output =>
    obtain ⟨e, he⟩ := h
    obtain ⟨re, hre⟩ := cmdTopFrames_eq reading env input top exclude output
    rw [runCmd, hre]
    cases re with
    | error e => rfl
    | ok re => rw [result_ok_bind, exitCode_error he]
  | toPprof input output =>
    obtain ⟨e, he⟩ := h
    exact exitCode_error he
  | gate current baseline threshold top minBasePct newFrameFloorPct output =>
    rw [runCmd, cmdGate]
    cases hcur : loadFrames env current with
    | error e => rfl
    | ok cur =>
      rcases h with ⟨e, he⟩ | ⟨e, he⟩
      · exact absurd (hcur.symm.trans he) nofun
      · rw [he]
        rfl

/-! ### Malformed profiles -/

/-- What the numbers of a profile have to keep to. -/
structure Flamebearer.WellFormed (fb : Flamebearer) (ns : ℤ → ℤ) : Prop where
  rowsFit : fb.RowsFit
  named : fb.Named
  selfTimesFit : fb.SelfTimesFit
  totalFits : fb.TotalFits
  valuesFit : fb.ValuesFit ns

/-- A JSON value that cannot crash the tool. -/
structure Robust (reading : Reading) (raw : Value) : Prop where
  /-- Every index is in bounds and every sum and product is in range. -/
  decodes : ∀ path fb, fromValue reading path raw = .ok fb → ∃ bars, fb.decodeLevelsChecked = .ok bars
  frames : ∀ path fb, fromValue reading path raw = .ok fb → ∀ order, (∀ l, (order l).Perm l) →
    ∀ n exclude, ∃ rows, fb.topFramesChecked order n exclude = .ok rows
  pprof : ∀ path fb, fromValue reading path raw = .ok fb → ∃ bytes, fb.toPprofChecked reading.ns = .ok bytes
  /-- Every command on a file that holds it ends with a documented code. -/
  exits : ∀ (env : Environment) (cmd : Cmd), (∀ path ∈ cmd.profile, env.Holds path raw) →
    exitCode (runCmd reading env cmd) ∈ documented
  /-- And bad input with the code for it. -/
  bad : ∀ (env : Environment) (cmd : Cmd), cmd.BadInput reading env →
    exitCode (runCmd reading env cmd) = EXIT_INPUT

/-- **Malformed profiles.**  A JSON value cannot crash the tool exactly when the profile read out
of it, if there is one, is well formed. -/
theorem malformed_profiles_iff (reading : Reading) (raw : Value) :
    Robust reading raw ↔ ∀ path fb, fromValue reading path raw = .ok fb → fb.WellFormed reading.ns := by
  constructor
  · intro h path fb hfb
    obtain ⟨hrows, hnamed, hself, htotal⟩ := Flamebearer.topFrames_iff.mp (h.frames path fb hfb)
    obtain ⟨_, _, hvalues⟩ := (Flamebearer.toPprof_iff reading.ns).mp (h.pprof path fb hfb)
    exact ⟨hrows, hnamed, hself, htotal, hvalues⟩
  · intro h
    have hframes : ∀ path fb, fromValue reading path raw = .ok fb → ∀ order, (∀ l, (order l).Perm l) →
        ∀ n exclude, ∃ rows, fb.topFramesChecked order n exclude = .ok rows := fun path fb hfb =>
      have hwell := h path fb hfb
      Flamebearer.topFrames_iff.mpr ⟨hwell.rowsFit, hwell.named, hwell.selfTimesFit, hwell.totalFits⟩
    have hpprof : ∀ path fb, fromValue reading path raw = .ok fb →
        ∃ bytes, fb.toPprofChecked reading.ns = .ok bytes := fun path fb hfb =>
      have hwell := h path fb hfb
      (Flamebearer.toPprof_iff reading.ns).mpr ⟨hwell.rowsFit, hwell.named, hwell.valuesFit⟩
    refine ⟨fun path fb hfb => ?_, hframes, hpprof, fun env cmd hholds => ?_, fun env cmd => exitCode_badInput⟩
    · exact fb.decodeLevels_returns.exists_iff.mpr (h path fb hfb).rowsFit
    · cases cmd with
      | topFrames input top exclude output =>
        have hload := load_eq reading (hholds input rfl)
        refine cmdTopFrames_documented fun fb hfb re => ?_
        exact hframes input fb (hload.symm.trans hfb) env.values env.values_perm top re
      | toPprof input output =>
        have hload := load_eq reading (hholds input rfl)
        exact cmdToPprof_documented fun fb hfb => hpprof input fb (hload.symm.trans hfb)
      | gate current baseline threshold top minBasePct newFrameFloorPct output =>
        exact run_gate_exits current baseline threshold top minBasePct newFrameFloorPct output

/-- `{"names":[],"levels":[[0,1,1,0]]}`: one bar, and no name for it. -/
def namelessProfile : Value := .object [
  ("names", .array []),
  ("levels", .array [.array [.number (.posInt 0), .number (.posInt 1), .number (.posInt 1), .number (.posInt 0)]])]

/-- What is read out of it. -/
def nameless (units : String) : Flamebearer where
  names := []
  levels := [[0, 1, 1, 0]]
  numTicks := 0
  sampleRate := 0
  units

theorem decodeLevels_nameless (units : String) :
    (nameless units).decodeLevelsChecked = .ok (nameless units).decodeLevels := by
  refine (nameless units).decodeLevels_returns.eq fun row hrow => ?_
  obtain rfl := List.mem_singleton.mp hrow
  rw [steps_cons, Checked.partialSums_cons, Checked.partialSums_cons]
  exact ⟨by decide, by decide, Checked.partialSums_nil _⟩

theorem topFrames_nameless (units : String) (order : List ℤ → List ℤ) (n : ℕ) (exclude : Option (String → Bool)) :
    (nameless units).topFramesChecked order n exclude = .error .outOfBounds := by
  rw [Flamebearer.topFramesChecked, decodeLevels_nameless]
  rfl

theorem toPprof_nameless (units : String) (ns : ℤ → ℤ) :
    (nameless units).toPprofChecked ns = .error .outOfBounds := by
  rw [Flamebearer.toPprofChecked, decodeLevels_nameless]
  rfl

/-- A directory with this one file. -/
def namelessEnvironment : Environment where
  readToString path := if path = "profile.json" then .ok "\x7b\"names\":[],\"levels\":[[0,1,1,0]]\x7d" else
    .error "No such file or directory (os error 2)"
  fromStr text := if text = "\x7b\"names\":[],\"levels\":[[0,1,1,0]]\x7d" then .ok namelessProfile else
    .error "expected value at line 1 column 1"
  regex _ := .error "regex parse error"
  asF64 _ := 0
  framesToJson _ := []
  write _ _ := .ok ()
  values l := l
  values_perm := List.Perm.refl

/-- Both outputs of a bar without a name panic, and no code of the tool comes out. -/
theorem nameless_profile_panics :
    (∀ reading path, ∃ fb, fromValue reading path namelessProfile = .ok fb ∧
      (∀ order n exclude, fb.topFramesChecked order n exclude = .error .outOfBounds) ∧
      fb.toPprofChecked reading.ns = .error .outOfBounds) ∧
    (∀ reading, namelessEnvironment.Holds "profile.json" namelessProfile ∧
      exitCode (runCmd reading namelessEnvironment (.topFrames "profile.json" 5 none none)) = EXIT_PANIC ∧
      EXIT_PANIC ∉ documented) ∧
    ∀ reading, ¬ Robust reading namelessProfile := by
  have hvalue : ∀ reading path, fromValue reading path namelessProfile =
      .ok (nameless (reading.toLowercase "samples")) := fun _ _ => rfl
  have hholds : namelessEnvironment.Holds "profile.json" namelessProfile := ⟨_, rfl, rfl⟩
  refine ⟨fun reading path => ?_, fun reading => ⟨hholds, ?_, by decide⟩, fun reading h => ?_⟩
  · exact ⟨_, hvalue reading path, topFrames_nameless _, toPprof_nameless _ _⟩
  · have hload : load reading namelessEnvironment "profile.json" =
        .ok (nameless (reading.toLowercase "samples")) := (load_eq reading hholds).trans (hvalue reading _)
    rw [runCmd, cmdTopFrames, hload]
    change exitCode (ExceptT.lift (Flamebearer.topFramesChecked _ _ 5 none) >>= _) = EXIT_PANIC
    rw [topFrames_nameless]
    rfl
  · obtain ⟨bytes, hbytes⟩ := h.pprof "profile.json" _ (hvalue reading _)
    rw [toPprof_nameless] at hbytes
    cases hbytes

end Flamediff

end Konfig
