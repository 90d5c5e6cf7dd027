import MirrorMirage.Config

/-!
# The loader

`load` of `config.py`.  What it calls outside (the file system, the YAML parser
and the schema) is a parameter; each of these calls ends with a value, with an
exception of the family that the `except` clause around it names, or with
another one, which leaves `load` as it is.  Its acceptance condition is
`Accepts`, and `load_eq_ok_iff` says that the code decides it.
-/

namespace MirrorMirage.Loader

/-- How an outside call ends; `caught` has the text of an exception that the
`except` clause around the call names. -/
inductive Outcome (Result : Type) where
  | value (result : Result)
  | caught (text : String)
  | stray (text : String)
  deriving DecidableEq, Repr

/-- What `load` raises. -/
inductive LoadError where
  | configError (message : String)
  | stray (text : String)
  deriving DecidableEq, Repr

/-- `except … as e: raise ConfigError(…) from e`. -/
def Outcome.orConfigError {Result : Type} (message : String → String) :
    Outcome Result → Except LoadError Result
  | .value result => .ok result
  | .caught text => .error (.configError (message text))
  | .stray text => .error (.stray text)

/-- A value of the YAML parser, as far as `load` looks into it.  `shown` is what
`str` gives, which raises on an integer of too many digits; the entries of a
mapping have different keys. -/
inductive Value where
  | str (text : String)
  | dict (entries : List (Value × Value)) (shown : Except String String)
  | other (truthy : Bool) (shown : Except String String)

namespace Value

/-- `bool(value)`. -/
def truthy : Value → Bool
  | str text => text ≠ ""
  | dict entries _ => entries ≠ []
  | other truthy _ => truthy

/-- `str(value)`. -/
def shown : Value → Except String String
  | str text => .ok text
  | dict _ shown | other _ shown => shown

/-- `value or {}`. -/
def orEmpty (value : Value) : Value :=
  if value.truthy then value else dict [] (.ok "\x7b\x7d")

/-- The entries of a value that is a `dict`. -/
def entries? : Value → Option (List (Value × Value))
  | dict entries _ => some entries
  | _ => none

/-- Whether a key is the text `name`. -/
def is (name : String) : Value → Bool
  | str text => text = name
  | _ => false

end Value

/-- `data.get(name)`. -/
def get (entries : List (Value × Value)) (name : String) : Option Value :=
  (entries.find? (·.1.is name)).map (·.2)

/-- What `load` calls outside: `stat` gives `st_mode` of the secrets file, the
texts are those that `read_text` gives, and `repr` is that of a text. -/
structure Outside where
  stat : Outcome ℕ
  configText : Outcome String
  secretsText : Outcome String
  safeLoad : String → Outcome Value
  modelValidate : Value → Outcome Config
  pathExists : Path → Except String Bool
  repr : String → String

/-- `stat.S_IMODE`. -/
def sIMode (mode : ℕ) : ℕ := mode &&& 0o7777

/-- The group and world bits. -/
def isInsecure (mode : ℕ) : Bool := sIMode mode &&& 0o077 ≠ 0

/-- The mode as `:#o` formats it. -/
def octal (mode : ℕ) : String := "0o" ++ String.ofList (Nat.toDigits 8 mode)

def checkMode (outside : Outside) (secretsPath : String) :
    Except LoadError Unit := do
  let mode ← outside.stat.orConfigError fun e =>
    "cannot stat secrets file " ++ secretsPath ++ ": " ++ e
  if isInsecure mode then
    throw (.configError ("secrets file " ++ secretsPath ++
      " has insecure permission " ++ octal (sIMode mode) ++
      "; expected mode 0600 (group/world bits must be clear)"))

/-- Reading and parsing one of the two files. -/
def readYaml (outside : Outside) (kind path : String) (file : Outcome String) :
    Except LoadError Value := do
  let text ← file.orConfigError fun e =>
    "cannot read " ++ kind ++ " file " ++ path ++ ": " ++ e
  let data ← (outside.safeLoad text).orConfigError fun e =>
    "failed to parse " ++ path ++ ": " ++ e
  return data.orEmpty

/-- `isinstance(secrets_data, dict)`. -/
def secretsMapping (secretsPath : String) (data : Value) :
    Except LoadError (List (Value × Value)) :=
  match data.entries? with
  | some entries => .ok entries
  | none => .error (.configError ("secrets file " ++ secretsPath ++
      " must be a mapping"))

/-- The `repr` of a list of texts. -/
def showList (outside : Outside) (texts : List String) : String :=
  "[" ++ String.intercalate ", " (texts.map outside.repr) ++ "]"

def checkBinding (outside : Outside) (cdnNames : List String)
    (watch : WatchConfig) (binding : Binding) : Except LoadError Unit :=
  if binding.cdn ∈ cdnNames then .ok ()
  else .error (.configError ("watch " ++ Pathlib.str watch.path ++
    ": binding references unknown cdn " ++ outside.repr binding.cdn ++
    "; defined cdns: " ++ showList outside (cdnNames.mergeSort (· ≤ ·))))

/-- The body of the loop over the watches; `exists` stands in no `try`. -/
def checkWatch (outside : Outside) (cdnNames : List String)
    (watch : WatchConfig) : Except LoadError Unit := do
  let found ← (outside.pathExists watch.path).mapError .stray
  if found then watch.bindings.forM (checkBinding outside cdnNames watch)
  else throw (.configError ("watch path " ++ Pathlib.str watch.path ++
    " does not exist"))

/-- `str(k): str(v)`. -/
def showEntry (entry : Value × Value) : Except String (String × String) := do
  let key ← entry.1.shown
  let value ← entry.2.shown
  return (key, value)

/-- `creds`, unless `not creds or not isinstance(creds, dict)`. -/
def usableCreds (secrets : List (Value × Value)) (cdnName : String) :
    Option (List (Value × Value)) :=
  match get secrets cdnName with
  | none => none
  | some creds => if creds.truthy then creds.entries? else none

/-- The body of the loop over `cfg.cdns`. -/
def readCredentials (outside : Outside) (secretsPath : String)
    (secrets : List (Value × Value)) (cdnName : String) :
    Except LoadError (String × Dict String String) :=
  match usableCreds secrets cdnName with
  | none => .error (.configError ("no credentials for cdn " ++
      outside.repr cdnName ++ " in " ++ secretsPath))
  | some creds => do
      let shown ← (Dict.empty.collect showEntry creds).mapError .stray
      return (cdnName, shown)

def load (outside : Outside) (configPath secretsPath : String) :
    Except LoadError Config := do
  checkMode outside secretsPath
  let configData ← readYaml outside "config" configPath outside.configText
  let secretsData ← readYaml outside "secrets" secretsPath outside.secretsText
  let secrets ← secretsMapping secretsPath secretsData
  let cfg ← (outside.modelValidate configData).orConfigError fun e =>
    "invalid configuration: " ++ e
  cfg.watches.forM (checkWatch outside cfg.cdns.keys)
  let credentials ← cfg.credentials.collect
    (readCredentials outside secretsPath secrets) cfg.cdns.keys
  return { cfg with credentials := credentials }

/-! ## What is accepted -/

section Accepted

variable {outside : Outside} {configPath secretsPath : String}
variable {config cfg : Config} {secrets : List (Value × Value)}
variable {name key : String} {creds : Dict String String}

/-- The schema makes this configuration of the config file. -/
def Outside.Declares (outside : Outside) (config : Config) : Prop :=
  ∃ text data, outside.configText = .value text ∧
    outside.safeLoad text = .value data ∧
    outside.modelValidate data.orEmpty = .value config

/-- The secrets file holds this mapping. -/
def Outside.Keeps (outside : Outside) (secrets : List (Value × Value)) : Prop :=
  ∃ text data, outside.secretsText = .value text ∧
    outside.safeLoad text = .value data ∧ data.orEmpty.entries? = some secrets

/-- The secrets have a non-empty mapping for a CDN, and these are its entries
as texts. -/
def CredentialsOf (secrets : List (Value × Value)) (name : String)
    (creds : Dict String String) : Prop :=
  ∃ value entries pairs, get secrets name = some value ∧ value.truthy ∧
    value.entries? = some entries ∧ entries.mapM showEntry = .ok pairs ∧
    Dict.empty.update pairs = creds

/-- The secrets have an entry for a CDN with a key that has this text. -/
def Offers (secrets : List (Value × Value)) (name key : String) : Prop :=
  ∃ value entries, get secrets name = some value ∧
    value.entries? = some entries ∧ ∃ entry ∈ entries, entry.1.shown = .ok key

/-- The condition under which `load` returns `cfg`. -/
structure Accepts (outside : Outside) (config : Config)
    (secrets : List (Value × Value)) (cfg : Config) : Prop where
  mode : ∃ mode, outside.stat = .value mode ∧ isInsecure mode = false
  declares : outside.Declares config
  keeps : outside.Keeps secrets
  paths : ∀ watch ∈ config.watches, outside.pathExists watch.path = .ok true
  bindings : ∀ watch ∈ config.watches, ∀ binding ∈ watch.bindings,
    binding.cdn ∈ config.cdns.keys
  credentials : ∃ pairs, List.Forall₂ (fun name pair =>
      pair.1 = name ∧ CredentialsOf secrets name pair.2) config.cdns.keys
        pairs ∧
    cfg = { config with credentials := config.credentials.update pairs }

theorem Outside.Declares.unique {other : Config}
    (h : outside.Declares config) (hother : outside.Declares other) :
    other = config := by
  obtain ⟨text, data, htext, hdata, hconfig⟩ := h
  obtain ⟨text', data', htext', hdata', hother⟩ := hother
  grind

theorem Outside.Keeps.unique {other : List (Value × Value)}
    (h : outside.Keeps secrets) (hother : outside.Keeps other) :
    other = secrets := by
  obtain ⟨text, data, htext, hdata, hsecrets⟩ := h
  obtain ⟨text', data', htext', hdata', hother⟩ := hother
  grind

theorem orConfigError_eq_ok_iff {Result : Type} {message : String → String}
    {outcome : Outcome Result} {result : Result} :
    outcome.orConfigError message = .ok result ↔ outcome = .value result := by
  cases outcome <;> simp [Outcome.orConfigError]

theorem mapError_eq_ok_iff {Result Error After : Type}
    {f : Error → After} {first : Except Error Result} {result : Result} :
    first.mapError f = .ok result ↔ first = .ok result := by
  cases first <;> simp [Except.mapError]

theorem checkMode_eq_ok_iff : checkMode outside secretsPath = .ok () ↔
    ∃ mode, outside.stat = .value mode ∧ isInsecure mode = false := by
  simp only [checkMode, Fallible.bind_eq_ok_iff, orConfigError_eq_ok_iff]
  refine exists_congr fun mode => and_congr_right fun _ => ?_
  cases isInsecure mode <;> simp [pure, Except.pure, throw, throwThe,
    MonadExceptOf.throw]

theorem readYaml_eq_ok_iff {kind path : String} {file : Outcome String}
    {data : Value} : readYaml outside kind path file = .ok data ↔
      ∃ text parsed, file = .value text ∧
        outside.safeLoad text = .value parsed ∧ parsed.orEmpty = data := by
  simp [readYaml, Fallible.bind_eq_ok_iff, orConfigError_eq_ok_iff, pure,
    Except.pure]

theorem secretsMapping_eq_ok_iff {data : Value} :
    secretsMapping secretsPath data = .ok secrets ↔
      data.entries? = some secrets := by
  cases hentries : data.entries? <;> simp [secretsMapping, hentries]

theorem checkWatch_eq_ok_iff {cdnNames : List String} {watch : WatchConfig} :
    checkWatch outside cdnNames watch = .ok () ↔
      outside.pathExists watch.path = .ok true ∧
        ∀ binding ∈ watch.bindings, binding.cdn ∈ cdnNames := by
  have hbinding : ∀ binding,
      checkBinding outside cdnNames watch binding = .ok () ↔
        binding.cdn ∈ cdnNames := by
    intro binding
    by_cases hknown : binding.cdn ∈ cdnNames <;> simp [checkBinding, hknown]
  have hall : watch.bindings.forM (checkBinding outside cdnNames watch) =
      .ok () ↔ ∀ binding ∈ watch.bindings, binding.cdn ∈ cdnNames := by
    simp only [Fallible.forM_eq_ok_iff, hbinding]
  simp only [checkWatch, Fallible.bind_eq_ok_iff, mapError_eq_ok_iff]
  constructor
  · rintro ⟨found, hfound, hrest⟩
    cases found with
    | false => cases hrest
    | true => exact ⟨hfound, hall.mp hrest⟩
  · rintro ⟨hfound, hknown⟩
    exact ⟨true, hfound, hall.mpr hknown⟩

theorem usableCreds_eq_some_iff {entries : List (Value × Value)} :
    usableCreds secrets name = some entries ↔
      ∃ value, get secrets name = some value ∧ value.truthy ∧
        value.entries? = some entries := by
  cases hget : get secrets name with
  | none => simp [usableCreds, hget]
  | some value =>
      by_cases htruthy : value.truthy <;> simp [usableCreds, hget, htruthy]

theorem readCredentials_eq_ok_iff {pair : String × Dict String String} :
    readCredentials outside secretsPath secrets name = .ok pair ↔
      pair.1 = name ∧ CredentialsOf secrets name pair.2 := by
  obtain ⟨shownName, creds⟩ := pair
  have hcreds : CredentialsOf secrets name creds ↔
      ∃ entries, usableCreds secrets name = some entries ∧
        ∃ pairs, entries.mapM showEntry = .ok pairs ∧
          Dict.empty.update pairs = creds := by
    simp only [CredentialsOf, usableCreds_eq_some_iff]
    tauto
  rw [hcreds]
  cases hentries : usableCreds secrets name with
  | none => simp [readCredentials, hentries]
  | some entries =>
      simp only [readCredentials, hentries, Fallible.bind_eq_ok_iff,
        mapError_eq_ok_iff, Dict.collect_eq_ok_iff, pure, Except.pure,
        Except.ok.injEq, Prod.mk.injEq, Option.some.injEq, exists_eq_left']
      grind

theorem load_eq_ok_iff : load outside configPath secretsPath = .ok cfg ↔
    ∃ config secrets, Accepts outside config secrets cfg := by
  have hwatches : ∀ config : Config, config.watches.forM
      (checkWatch outside config.cdns.keys) = .ok () ↔
        ∀ watch ∈ config.watches, outside.pathExists watch.path = .ok true ∧
          ∀ binding ∈ watch.bindings, binding.cdn ∈ config.cdns.keys := by
    intro config
    simp only [Fallible.forM_eq_ok_iff, checkWatch_eq_ok_iff]
  simp only [load, Fallible.bind_eq_ok_iff, Unique.exists_iff, default,
    checkMode_eq_ok_iff, readYaml_eq_ok_iff, secretsMapping_eq_ok_iff,
    orConfigError_eq_ok_iff, hwatches, Dict.collect_eq_ok_iff,
    Fallible.mapM_eq_ok_iff, readCredentials_eq_ok_iff, pure, Except.pure,
    Except.ok.injEq]
  constructor
  · rintro ⟨hmode, _, ⟨text, data, htext, hdata, rfl⟩, _,
      ⟨secretsText, secretsData, hsecretsText, hsecretsData, rfl⟩, secrets,
      hsecrets, config, hconfig, hall, _, ⟨pairs, hpairs, rfl⟩, rfl⟩
    exact ⟨config, secrets, hmode, ⟨text, data, htext, hdata, hconfig⟩,
      ⟨secretsText, secretsData, hsecretsText, hsecretsData, hsecrets⟩,
      fun watch hwatch => (hall watch hwatch).1,
      fun watch hwatch => (hall watch hwatch).2, pairs, hpairs, rfl⟩
  · rintro ⟨config, secrets, h⟩
    obtain ⟨text, data, htext, hdata, hconfig⟩ := h.declares
    obtain ⟨secretsText, secretsData, hsecretsText, hsecretsData, hsecrets⟩ :=
      h.keeps
    obtain ⟨pairs, hpairs, rfl⟩ := h.credentials
    exact ⟨h.mode, _, ⟨text, data, htext, hdata, rfl⟩, _,
      ⟨secretsText, secretsData, hsecretsText, hsecretsData, rfl⟩, secrets,
      hsecrets, config, hconfig,
      fun watch hwatch => ⟨h.paths watch hwatch, h.bindings watch hwatch⟩,
      _, ⟨pairs, hpairs, rfl⟩, rfl⟩

theorem Accepts.cdns (h : Accepts outside config secrets cfg) :
    cfg.cdns = config.cdns := by
  obtain ⟨pairs, -, rfl⟩ := h.credentials
  rfl

/-- An accepted configuration has the credentials of every CDN. -/
theorem Accepts.credentialsOf (h : Accepts outside config secrets cfg)
    (hname : name ∈ config.cdns.keys) :
    ∃ creds, cfg.credentials.get? name = some creds ∧
      CredentialsOf secrets name creds := by
  obtain ⟨pairs, hpairs, rfl⟩ := h.credentials
  exact Dict.exists_get?_update id (CredentialsOf secrets) hpairs
    (by simpa using config.cdns.nodup_keys) hname

theorem shown_key {entry : Value × Value} {pair : String × String}
    (h : showEntry entry = .ok pair) : entry.1.shown = .ok pair.1 := by
  simp only [showEntry, Fallible.bind_eq_ok_iff, pure, Except.pure,
    Except.ok.injEq] at h
  obtain ⟨shownKey, hkey, shownValue, -, rfl⟩ := h
  exact hkey

theorem mem_map_fst_iff {entries : List (Value × Value)}
    {pairs : List (String × String)}
    (h : List.Forall₂ (fun entry pair => showEntry entry = .ok pair) entries
      pairs) : key ∈ pairs.map Prod.fst ↔
        ∃ entry ∈ entries, entry.1.shown = .ok key := by
  induction h with
  | nil => simp
  | cons hpair _ ih =>
      simp only [List.map_cons, List.mem_cons, ih, exists_eq_or_imp,
        shown_key hpair, Except.ok.injEq]
      rw [eq_comm]

/-- The credentials have the keys that the secrets offer. -/
theorem CredentialsOf.mem_keys_iff (h : CredentialsOf secrets name creds) :
    key ∈ creds.keys ↔ Offers secrets name key := by
  obtain ⟨value, entries, pairs, hget, -, hentries, hpairs, rfl⟩ := h
  rw [Dict.mem_keys_update, mem_map_fst_iff (Fallible.mapM_eq_ok_iff.mp hpairs)]
  simp [Offers, hget, hentries]

end Accepted

end MirrorMirage.Loader
