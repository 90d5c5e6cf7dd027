import MirrorMirage.Core.Exceptions
import MirrorMirage.Loader

/-!
# What an operator sees of a failed start

`main` of `__main__.py` prints a `ConfigError` of `load` and ends with exit code
1; any other exception of `load` ends the process with a traceback.  `load`
raises nothing but `ConfigError` exactly if all exceptions that it meets are of
the families that it names (`load_fails_as_documented_iff`).
-/

namespace MirrorMirage.Loader

open Fallible

/-- How `asyncio.run` ends. -/
inductive DaemonEnd where
  | returned
  | keyboardInterrupt
  | inotifyLimitError (text : String)
  | otherError (text : String)
  deriving DecidableEq, Repr

/-- How the process ends, with the line that it prints. -/
inductive Ending where
  | exit (code : ℕ) (printed : Option String)
  | traceback (text : String)
  deriving DecidableEq, Repr

/-- `main` after the arguments are parsed. -/
def main (outside : Outside) (configPath secretsPath : String) (check : Bool)
    (run : Config → DaemonEnd) : Ending :=
  match load outside configPath secretsPath with
  | .error (.configError message) =>
      .exit 1 (some ("mirror-mirage: config error: " ++ message))
  | .error (.stray text) => .traceback text
  | .ok cfg =>
      if check then .exit 0 (some "mirror-mirage: config OK")
      else
        match run cfg with
        | .returned | .keyboardInterrupt => .exit 0 none
        | .inotifyLimitError text => .exit 1 (some ("mirror-mirage: " ++ text))
        | .otherError text => .traceback text

def Outcome.IsStray {Result : Type} (outcome : Outcome Result) : Prop :=
  ∃ text, outcome = .stray text

def LoadError.IsStray (error : LoadError) : Prop :=
  ∃ text, error = .stray text

/-! ## The conditions -/

/-- The secrets file has no group or world bits. -/
def Outside.Secure (outside : Outside) : Prop :=
  ∃ mode, outside.stat = .value mode ∧ isInsecure mode = false

/-- A file is read and parsed, and `or {}` makes this of it. -/
def Outside.Parses (outside : Outside) (file : Outcome String) (data : Value) :
    Prop :=
  ∃ text parsed, file = .value text ∧
    outside.safeLoad text = .value parsed ∧ parsed.orEmpty = data

/-- A watch that the loop over the watches goes past. -/
def Outside.Passes (outside : Outside) (config : Config) (watch : WatchConfig) :
    Prop :=
  outside.pathExists watch.path = .ok true ∧
    ∀ binding ∈ watch.bindings, binding.cdn ∈ config.cdns.keys

/-- What the two files have to be like according to the documents. -/
structure Documented (outside : Outside) (config : Config)
    (secrets : List (Value × Value)) : Prop where
  mode : outside.Secure
  declares : outside.Declares config
  keeps : outside.Keeps secrets
  watches : ∀ watch ∈ config.watches, outside.Passes config watch
  credentials : ∀ name ∈ config.cdns.keys, ∃ entries,
    usableCreds secrets name = some entries

/-- Every outside call that `load` gets to returns, or ends with an exception
that the `except` clause around it names, where there is one. -/
structure Named (outside : Outside) : Prop where
  stat : ¬ outside.stat.IsStray
  configText : outside.Secure → ¬ outside.configText.IsStray
  configYaml : outside.Secure → ∀ text, outside.configText = .value text →
    ¬ (outside.safeLoad text).IsStray
  secretsText : outside.Secure →
    (∃ data, outside.Parses outside.configText data) →
      ¬ outside.secretsText.IsStray
  secretsYaml : outside.Secure →
    (∃ data, outside.Parses outside.configText data) →
      ∀ text, outside.secretsText = .value text →
        ¬ (outside.safeLoad text).IsStray
  schema : outside.Secure → (∃ secrets, outside.Keeps secrets) →
    ∀ data, outside.Parses outside.configText data →
      ¬ (outside.modelValidate data).IsStray
  watches : outside.Secure → (∃ secrets, outside.Keeps secrets) →
    ∀ config, outside.Declares config →
      ∀ watch, Gets (outside.Passes config) config.watches watch →
        ∃ found, outside.pathExists watch.path = .ok found
  shown : outside.Secure → ∀ secrets, outside.Keeps secrets →
    ∀ config, outside.Declares config →
      (∀ watch ∈ config.watches, outside.Passes config watch) →
        ∀ name, Gets (fun earlier => ∃ creds,
            CredentialsOf secrets earlier creds) config.cdns.keys name →
          ∀ entries, usableCreds secrets name = some entries →
            ∀ entry ∈ entries, ∃ pair, showEntry entry = .ok pair

/-! ## The calls -/

section Calls

variable {outside : Outside} {configPath secretsPath : String}
variable {config cfg : Config} {secrets : List (Value × Value)}
variable {Result : Type} {name : String}

theorem spares_orConfigError_iff {message : String → String}
    {outcome : Outcome Result} :
    Spares LoadError.IsStray (outcome.orConfigError message) ↔
      ¬ outcome.IsStray := by
  cases outcome <;>
    simp [Outcome.orConfigError, Outcome.IsStray, LoadError.IsStray]

theorem spares_mapError_stray_iff {first : Except String Result} :
    Spares LoadError.IsStray (first.mapError .stray) ↔
      ∃ result, first = .ok result := by
  cases first <;> simp [Except.mapError, LoadError.IsStray]

theorem spares_checkMode_iff :
    Spares LoadError.IsStray (checkMode outside secretsPath) ↔
      ¬ outside.stat.IsStray := by
  rw [checkMode, spares_bind_iff, spares_orConfigError_iff]
  refine and_iff_left fun mode _ => ?_
  split <;> simp [throw, throwThe, MonadExceptOf.throw, pure, Except.pure,
    LoadError.IsStray]

theorem spares_readYaml_iff {kind path : String} {file : Outcome String} :
    Spares LoadError.IsStray (readYaml outside kind path file) ↔
      ¬ file.IsStray ∧ ∀ text, file = .value text →
        ¬ (outside.safeLoad text).IsStray := by
  simp [readYaml, spares_bind_iff, spares_orConfigError_iff,
    orConfigError_eq_ok_iff, pure, Except.pure]

theorem spares_secretsMapping {data : Value} :
    Spares LoadError.IsStray (secretsMapping secretsPath data) := by
  unfold secretsMapping
  split <;> simp [LoadError.IsStray]

theorem spares_checkWatch_iff {cdnNames : List String} {watch : WatchConfig} :
    Spares LoadError.IsStray (checkWatch outside cdnNames watch) ↔
      ∃ found, outside.pathExists watch.path = .ok found := by
  rw [checkWatch, spares_bind_iff, spares_mapError_stray_iff]
  refine and_iff_left fun found _ => ?_
  split
  · refine spares_forM_iff.mpr fun binding _ => ?_
    unfold checkBinding
    split <;> simp [LoadError.IsStray]
  · simp [throw, throwThe, MonadExceptOf.throw, LoadError.IsStray]

theorem spares_readCredentials_iff :
    Spares LoadError.IsStray
        (readCredentials outside secretsPath secrets name) ↔
      ∀ entries, usableCreds secrets name = some entries →
        ∀ entry ∈ entries, ∃ pair, showEntry entry = .ok pair := by
  unfold readCredentials
  split
  · simp [LoadError.IsStray, *]
  · rename_i entries hentries
    rw [spares_bind_iff, spares_mapError_stray_iff, Dict.exists_collect_iff]
    simp [hentries, pure, Except.pure]

/-! ## The loader -/

theorem keeps_iff : outside.Keeps secrets ↔
    ∃ data, outside.Parses outside.secretsText data ∧
      data.entries? = some secrets := by
  constructor
  · rintro ⟨text, data, htext, hdata, hsecrets⟩
    exact ⟨_, ⟨text, data, htext, hdata, rfl⟩, hsecrets⟩
  · rintro ⟨_, ⟨text, data, htext, hdata, rfl⟩, hsecrets⟩
    exact ⟨text, data, htext, hdata, hsecrets⟩

theorem declares_iff : outside.Declares config ↔
    ∃ data, outside.Parses outside.configText data ∧
      outside.modelValidate data = .value config := by
  constructor
  · rintro ⟨text, data, htext, hdata, hconfig⟩
    exact ⟨_, ⟨text, data, htext, hdata, rfl⟩, hconfig⟩
  · rintro ⟨_, ⟨text, data, htext, hdata, rfl⟩, hconfig⟩
    exact ⟨text, data, htext, hdata, hconfig⟩

/-- `load` raises nothing but `ConfigError` if and only if it meets nothing
else. -/
theorem spares_load_iff :
    Spares LoadError.IsStray (load outside configPath secretsPath) ↔
      Named outside := by
  have hmode : ∀ done, checkMode outside secretsPath = .ok done ↔
      outside.Secure := fun _ => checkMode_eq_ok_iff
  have hread : ∀ kind path file data,
      readYaml outside kind path file = .ok data ↔
        outside.Parses file data := fun _ _ _ _ => readYaml_eq_ok_iff
  have hwatches : ∀ (config : Config) done, config.watches.forM
      (checkWatch outside config.cdns.keys) = .ok done ↔
        ∀ watch ∈ config.watches, outside.Passes config watch := by
    rintro config ⟨⟩
    simp only [Fallible.forM_eq_ok_iff, checkWatch_eq_ok_iff, Outside.Passes]
  have hpasses : ∀ (config : Config) watch,
      checkWatch outside config.cdns.keys watch = .ok ⟨⟩ ↔
        outside.Passes config watch := fun _ _ => checkWatch_eq_ok_iff
  have hcreds : ∀ secrets name, (∃ pair, readCredentials outside secretsPath
      secrets name = .ok pair) ↔ ∃ creds, CredentialsOf secrets name creds := by
    simp [readCredentials_eq_ok_iff]
  simp only [load, spares_bind_iff, spares_checkMode_iff, hmode,
    spares_readYaml_iff, hread, spares_secretsMapping, true_and,
    secretsMapping_eq_ok_iff, spares_orConfigError_iff,
    orConfigError_eq_ok_iff, spares_forM_iff, hwatches, hpasses,
    spares_checkWatch_iff, spares_collect_iff, hcreds,
    spares_readCredentials_iff, pure, Except.pure, spares_ok, implies_true,
    and_true]
  constructor
  · rintro ⟨hstat, hrest⟩
    refine ⟨hstat, fun hsecure => (hrest () hsecure).1.1,
      fun hsecure => (hrest () hsecure).1.2, ?_, ?_, ?_, ?_, ?_⟩
    · rintro hsecure ⟨data, hdata⟩
      exact ((hrest () hsecure).2 data hdata).1.1
    · rintro hsecure ⟨data, hdata⟩
      exact ((hrest () hsecure).2 data hdata).1.2
    · rintro hsecure ⟨secrets, hkeeps⟩ data hdata
      obtain ⟨secretsData, hparses, hsecrets⟩ := keeps_iff.mp hkeeps
      exact (((hrest () hsecure).2 data hdata).2 _ hparses _ hsecrets).1
    · rintro hsecure ⟨secrets, hkeeps⟩ config hdeclares
      obtain ⟨secretsData, hparses, hsecrets⟩ := keeps_iff.mp hkeeps
      obtain ⟨data, hdata, hconfig⟩ := declares_iff.mp hdeclares
      exact ((((hrest () hsecure).2 data hdata).2 _ hparses _ hsecrets).2 _
        hconfig).1
    · intro hsecure secrets hkeeps config hdeclares hall
      obtain ⟨secretsData, hparses, hsecrets⟩ := keeps_iff.mp hkeeps
      obtain ⟨data, hdata, hconfig⟩ := declares_iff.mp hdeclares
      exact ((((hrest () hsecure).2 data hdata).2 _ hparses _ hsecrets).2 _
        hconfig).2 () hall
  · intro h
    refine ⟨h.stat, fun _ hsecure => ⟨⟨h.configText hsecure,
      h.configYaml hsecure⟩, fun data hdata => ⟨⟨h.secretsText hsecure
        ⟨data, hdata⟩, h.secretsYaml hsecure ⟨data, hdata⟩⟩, ?_⟩⟩⟩
    intro secretsData hparses secrets hsecrets
    have hkeeps : outside.Keeps secrets :=
      keeps_iff.mpr ⟨secretsData, hparses, hsecrets⟩
    refine ⟨h.schema hsecure ⟨secrets, hkeeps⟩ data hdata,
      fun config hconfig => ?_⟩
    have hdeclares : outside.Declares config :=
      declares_iff.mpr ⟨data, hdata, hconfig⟩
    exact ⟨h.watches hsecure ⟨secrets, hkeeps⟩ config hdeclares,
      fun _ hall => h.shown hsecure secrets hkeeps config hdeclares hall⟩

/-- Only the texts of the credentials are left to fail when the files are as
documented. -/
theorem Documented.load_eq (h : Documented outside config secrets) :
    load outside configPath secretsPath =
      (config.credentials.collect (readCredentials outside secretsPath secrets)
        config.cdns.keys >>= fun credentials =>
          pure { config with credentials := credentials }) := by
  obtain ⟨data, hdata, hconfig⟩ := declares_iff.mp h.declares
  obtain ⟨secretsData, hsecretsData, hsecrets⟩ := keeps_iff.mp h.keeps
  have hwatches : config.watches.forM (checkWatch outside config.cdns.keys) =
      .ok () := Fallible.forM_eq_ok_iff.mpr fun watch hwatch =>
    checkWatch_eq_ok_iff.mpr (h.watches watch hwatch)
  simp only [load, checkMode_eq_ok_iff.mpr h.mode,
    readYaml_eq_ok_iff.mpr hdata, readYaml_eq_ok_iff.mpr hsecretsData,
    secretsMapping_eq_ok_iff.mpr hsecrets,
    orConfigError_eq_ok_iff.mpr hconfig, hwatches, bind, Except.bind]

theorem Documented.spares (h : Documented outside config secrets) :
    Spares (fun error => ¬ error.IsStray)
      (load outside configPath secretsPath) := by
  rw [h.load_eq, spares_bind_iff]
  refine ⟨spares_collect_iff.mpr fun name hname => ?_, fun _ _ => spares_ok _⟩
  obtain ⟨entries, hentries⟩ := h.credentials name hname.mem
  simp only [readCredentials, hentries]
  refine spares_bind_iff.mpr ⟨?_, fun _ _ => spares_ok _⟩
  cases Dict.empty.collect showEntry entries <;>
    simp [Except.mapError, LoadError.IsStray]

theorem Accepts.documented (h : Accepts outside config secrets cfg) :
    Documented outside config secrets where
  mode := h.mode
  declares := h.declares
  keeps := h.keeps
  watches := fun watch hwatch => ⟨h.paths watch hwatch, h.bindings watch hwatch⟩
  credentials := by
    intro name hname
    obtain ⟨creds, -, value, entries, pairs, hget, htruthy, hentries, -⟩ :=
      h.credentialsOf hname
    exact ⟨entries, usableCreds_eq_some_iff.mpr
      ⟨value, hget, htruthy, hentries⟩⟩

end Calls

/-! ## The documented failures -/

/-- Every failure of `load` is a `ConfigError`, of which `main` makes a
diagnostic. -/
def FailsWithDiagnostic (outside : Outside) (configPath secretsPath : String) :
    Prop :=
  ∀ error, load outside configPath secretsPath = .error error →
    ∃ message, error = .configError message ∧
      ∀ check run, main outside configPath secretsPath check run =
        .exit 1 (some ("mirror-mirage: config error: " ++ message))

section Loads

variable {outside : Outside} {configPath secretsPath : String}

theorem failsWithDiagnostic_iff :
    FailsWithDiagnostic outside configPath secretsPath ↔
      Spares LoadError.IsStray (load outside configPath secretsPath) := by
  constructor
  · intro h error herror
    obtain ⟨message, rfl, -⟩ := h error herror
    simp [LoadError.IsStray]
  · intro h error herror
    cases error with
    | configError message =>
        refine ⟨message, rfl, fun check run => ?_⟩
        simp only [main, herror]
    | stray text => exact absurd ⟨text, rfl⟩ (h _ herror)

/-- For all outcomes of the outside calls: `load` fails with a diagnostic only,
returns a configuration exactly if the files are as documented, and then with
the credentials of the secrets file, if and only if all exceptions that it
meets are of the families that it names. -/
theorem load_fails_as_documented_iff :
    (FailsWithDiagnostic outside configPath secretsPath ∧
      ((∃ cfg, load outside configPath secretsPath = .ok cfg) ↔
        ∃ config secrets, Documented outside config secrets) ∧
      ∀ cfg, load outside configPath secretsPath = .ok cfg →
        ∃ config secrets, Accepts outside config secrets cfg) ↔
      Named outside := by
  rw [failsWithDiagnostic_iff]
  constructor
  · exact fun h => spares_load_iff.mp h.1
  · intro hnamed
    have hspares : Spares LoadError.IsStray
        (load outside configPath secretsPath) := spares_load_iff.mpr hnamed
    refine ⟨hspares, ⟨?_, ?_⟩, fun cfg => load_eq_ok_iff.mp⟩
    · rintro ⟨cfg, hload⟩
      obtain ⟨config, secrets, haccepts⟩ := load_eq_ok_iff.mp hload
      exact ⟨config, secrets, haccepts.documented⟩
    · rintro ⟨config, secrets, hdocumented⟩
      exact exists_ok_of_spares hspares hdocumented.spares

/-- A config file with bytes that are no text: `read_text` raises
`UnicodeDecodeError`, which is no `OSError`. -/
theorem undecodable_config_is_a_traceback :
    ¬ ∀ (outside : Outside) (configPath secretsPath : String),
      FailsWithDiagnostic outside configPath secretsPath ∧
        ((∃ cfg, load outside configPath secretsPath = .ok cfg) ↔
          ∃ config secrets, Documented outside config secrets) ∧
        ∀ cfg, load outside configPath secretsPath = .ok cfg →
          ∃ config secrets, Accepts outside config secrets cfg := by
  intro hclaim
  let outside : Outside := {
    stat := .value 0o600
    configText := .stray "'utf-8' codec can't decode byte 0xff in position 0"
    secretsText := .value ""
    safeLoad := fun _ => .value (.other false (.ok "None"))
    modelValidate := fun _ => .caught "2 validation errors for Config"
    pathExists := fun _ => .ok false
    repr := fun text => "'" ++ text ++ "'" }
  have hload : load outside "config.yaml" "secrets.yaml" = .error (.stray
      "'utf-8' codec can't decode byte 0xff in position 0") := rfl
  obtain ⟨message, herror, -⟩ :=
    (hclaim outside "config.yaml" "secrets.yaml").1 _ hload
  cases herror

end Loads

end MirrorMirage.Loader
