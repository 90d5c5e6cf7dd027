import MirrorMirage.Loader
import MirrorMirage.Providers.Fastly
import MirrorMirage.Providers.GcpQuota

/-!
# What an accepted configuration starts with

`build_providers` of `providers/__init__.py` on what `load` returns.  The
loader asks for some credentials of each CDN, the providers for particular
ones, and the limiter of the GCP provider for a capacity; an accepted
configuration starts exactly if the two files give them
(`accepted_starts_iff`).
-/

namespace MirrorMirage.Providers.Build

open MirrorMirage.Run MirrorMirage.Loader

/-- A provider with what it is created with; of a service account the text of
the path to its file. -/
inductive Provider where
  | fastly (provider : Fastly.Provider) (apiToken : String)
  | cloudFront (distributionId region : String)
      (accessKeyId secretAccessKey : Option String)
  | gcp (project urlMap serviceAccountFile : String) (quotaPerMinute : ℤ)
  | dryRun (cdnName wrappedType : String)
  deriving DecidableEq, Repr

/-- The quota of a provider that has one; the comparison of a length with a
negative quota comes out as that with zero. -/
def Provider.quota : Provider → Option GcpQuota.Quota
  | .gcp _ _ _ quotaPerMinute =>
      some { quotaPerMinute := quotaPerMinute.toNat }
  | _ => none

/-- `creds[key]`. -/
def subscript (creds : Dict String String) (key : String) :
    Except String String :=
  match creds.get? key with
  | some value => .ok value
  | none => .error ("KeyError: '" ++ key ++ "'")

def makeProvider (creds : Dict String String) :
    CdnConfig → Except String Provider
  | .fastly cdn => do
      let apiToken ← subscript creds "api_token"
      return .fastly ⟨cdn.serviceId, cdn.purgeAllServiceDomains⟩ apiToken
  | .cloudFront cdn =>
      return .cloudFront cdn.distributionId cdn.region
        (creds.get? "access_key_id") (creds.get? "secret_access_key")
  | .gcp cdn => do
      let serviceAccountFile ← subscript creds "service_account_file"
      return .gcp cdn.project cdn.urlMap serviceAccountFile cdn.quotaPerMinute

/-- `cfg.credentials.get(name, {})`. -/
def credsFor (cfg : Config) (name : String) : Dict String String :=
  (cfg.credentials.get? name).getD Dict.empty

/-- The body of the loop of `build_providers`. -/
def buildProvider (cfg : Config) (dryRun : Bool) (item : String × CdnConfig) :
    Except String Provider :=
  if dryRun then .ok (.dryRun item.1 item.2.type)
  else makeProvider (credsFor cfg item.1) item.2

def buildProviders (cfg : Config) (dryRun : Bool := false) :
    Except String (Dict String Provider) :=
  Dict.empty.collect (fun item => do
    let provider ← buildProvider cfg dryRun item
    return (item.1, provider)) cfg.cdns.items

/-! ## What a start asks for -/

/-- No pass through the limiter reads the first of no calls, whatever `purge`
calls there were before it. -/
def NeverRaises (quota : GcpQuota.Quota) : Prop :=
  ∀ tables now trace s, Reaches (GcpQuota.step quota tables) (fun _ _ => True)
    (GcpQuota.init quota now) trace s →
      (GcpQuota.acquire quota s.now s.calls).1 ≠ .raised

/-- There is one provider for each CDN name, and no limiter raises. -/
def Starts (cfg : Config) : Prop :=
  ∃ providers, buildProviders cfg = .ok providers ∧
    providers.keys = cfg.cdns.keys ∧
    ∀ name provider quota, providers.get? name = some provider →
      provider.quota = some quota → NeverRaises quota

/-- What a provider needs of the credentials and the settings of its CDN. -/
def Suits (offered : String → Prop) : CdnConfig → Prop
  | .fastly _ => offered "api_token"
  | .cloudFront _ => True
  | .gcp cdn => offered "service_account_file" ∧ 1 ≤ cdn.quotaPerMinute

/-- The two files give every CDN what its provider needs. -/
def Startable (outside : Outside) : Prop :=
  ∃ config secrets, outside.Declares config ∧ outside.Keeps secrets ∧
    ∀ item ∈ config.cdns.items, Suits (Offers secrets item.1) item.2

section Limiter

variable {quota : GcpQuota.Quota}

theorem neverRaises_iff : NeverRaises quota ↔ 0 < quota.quotaPerMinute := by
  constructor
  · intro h
    by_contra hquota
    -- without capacity the first pass raises
    apply h UrlParse.asciiTables 0 [] (GcpQuota.init quota 0) .refl
    simp [GcpQuota.acquire, GcpQuota.init, hquota]
  · intro hquota tables now trace s _
    exact GcpQuota.acquire_ne_raised hquota s.now s.calls

end Limiter

section Providers

variable {cfg : Config} {dryRun : Bool} {creds : Dict String String}
variable {cdn : CdnConfig} {item : String × CdnConfig} {provider : Provider}
variable {providers : Dict String Provider}

theorem subscript_eq_ok_iff {key value : String} :
    subscript creds key = .ok value ↔ creds.get? key = some value := by
  unfold subscript
  split <;> simp_all

/-- The two case analyses over the CDN types agree. -/
theorem exists_makeProvider_iff : (∃ provider,
      makeProvider creds cdn = .ok provider ∧
        ∀ quota, provider.quota = some quota → NeverRaises quota) ↔
    Suits (· ∈ creds.keys) cdn := by
  cases cdn with
  | fastly cdn =>
      simp [makeProvider, Suits, Fallible.bind_eq_ok_iff, subscript_eq_ok_iff,
        Dict.mem_keys_iff, Provider.quota, pure, Except.pure]
  | cloudFront cdn =>
      simp [makeProvider, Suits, Provider.quota, pure, Except.pure]
  | gcp cdn =>
      simp [makeProvider, Suits, Fallible.bind_eq_ok_iff, subscript_eq_ok_iff,
        Dict.mem_keys_iff, Provider.quota, neverRaises_iff, pure, Except.pure,
        Int.lt_iff_add_one_le]

/-- The provider made for an item under `cdns`. -/
def MadeFor (cfg : Config) (dryRun : Bool) (item : String × CdnConfig)
    (provider : Provider) : Prop :=
  buildProvider cfg dryRun item = .ok provider

/-- The providers of a configuration, in the order of its CDNs. -/
theorem buildProviders_eq_ok_iff :
    buildProviders cfg dryRun = .ok providers ↔
    ∃ pairs, List.Forall₂ (fun item pair =>
        pair.1 = item.1 ∧ MadeFor cfg dryRun item pair.2) cfg.cdns.items pairs ∧
      Dict.empty.update pairs = providers := by
  have hmade : ∀ (item : String × CdnConfig) (pair : String × Provider),
      (∃ provider, buildProvider cfg dryRun item = .ok provider ∧
        (item.1, provider) = pair) ↔
          pair.1 = item.1 ∧ MadeFor cfg dryRun item pair.2 := by
    intro item pair
    simp only [MadeFor]
    grind
  simp only [buildProviders, Dict.collect_eq_ok_iff, Fallible.mapM_eq_ok_iff,
    Fallible.bind_eq_ok_iff, pure, Except.pure, Except.ok.injEq, hmade]

theorem keys_of_buildProviders (h : buildProviders cfg dryRun = .ok providers) :
    providers.keys = cfg.cdns.keys := by
  obtain ⟨pairs, hpairs, rfl⟩ := buildProviders_eq_ok_iff.mp h
  have hkeys : pairs.map Prod.fst = cfg.cdns.keys :=
    Dict.map_fst_of_forall₂ Prod.fst (MadeFor cfg dryRun) hpairs
  rw [Dict.keys_update (by simpa [hkeys] using cfg.cdns.nodup_keys), hkeys]
  rfl

theorem get?_of_buildProviders (h : buildProviders cfg dryRun = .ok providers)
    (hitem : item ∈ cfg.cdns.items) :
    ∃ provider, providers.get? item.1 = some provider ∧
      MadeFor cfg dryRun item provider := by
  obtain ⟨pairs, hpairs, rfl⟩ := buildProviders_eq_ok_iff.mp h
  exact Dict.exists_get?_update Prod.fst (MadeFor cfg dryRun) hpairs
    cfg.cdns.nodup_keys hitem

theorem exists_buildProviders
    (h : ∀ item ∈ cfg.cdns.items, ∃ provider, MadeFor cfg dryRun item provider) :
    ∃ providers, buildProviders cfg dryRun = .ok providers := by
  refine Dict.exists_collect_iff.mpr fun item hitem => ?_
  obtain ⟨provider, hmade⟩ := h item hitem
  exact ⟨(item.1, provider), Fallible.bind_eq_ok_iff.mpr ⟨_, hmade, rfl⟩⟩

/-- In a dry run every configuration has its providers. -/
theorem exists_buildProviders_dryRun (cfg : Config) :
    ∃ providers, buildProviders cfg true = .ok providers ∧
      providers.keys = cfg.cdns.keys := by
  obtain ⟨providers, hbuild⟩ := exists_buildProviders
    fun item _ => ⟨_, (rfl : buildProvider cfg true item = _)⟩
  exact ⟨providers, hbuild, keys_of_buildProviders hbuild⟩

/-- A configuration starts exactly if its credentials and settings suit every
CDN. -/
theorem starts_iff : Starts cfg ↔
    ∀ item ∈ cfg.cdns.items, Suits (· ∈ (credsFor cfg item.1).keys) item.2 := by
  constructor
  · rintro ⟨providers, hbuild, -, hlimiter⟩ item hitem
    obtain ⟨provider, hget, hmade⟩ := get?_of_buildProviders hbuild hitem
    exact exists_makeProvider_iff.mp ⟨provider, hmade, fun quota hquota =>
      hlimiter item.1 provider quota hget hquota⟩
  · intro hsuits
    have hmade : ∀ item ∈ cfg.cdns.items, ∃ provider,
        MadeFor cfg false item provider := by
      intro item hitem
      obtain ⟨provider, hmade, -⟩ :=
        exists_makeProvider_iff.mpr (hsuits item hitem)
      exact ⟨provider, hmade⟩
    obtain ⟨providers, hbuild⟩ := exists_buildProviders hmade
    refine ⟨_, hbuild, keys_of_buildProviders hbuild, ?_⟩
    intro name provider quota hget hquota
    -- the name is that of a CDN, and the provider is the one made for it
    have hname : name ∈ cfg.cdns.keys := by
      rw [← keys_of_buildProviders hbuild]
      exact Dict.mem_keys_iff.mpr ⟨provider, hget⟩
    obtain ⟨item, hitem, rfl⟩ := List.mem_map.mp hname
    obtain ⟨built, hbuilt, hmade⟩ := get?_of_buildProviders hbuild hitem
    obtain ⟨made, hmade', hnever⟩ :=
      exists_makeProvider_iff.mpr (hsuits item hitem)
    obtain rfl : made = built := Except.ok.inj (hmade'.symm.trans hmade)
    rw [hget, Option.some.injEq] at hbuilt
    subst hbuilt
    exact hnever quota hquota

end Providers

section Accepted

variable {outside : Outside} {configPath secretsPath : String}
variable {config cfg : Config} {secrets : List (Value × Value)}

/-- The credentials that the loader has put in are those of the secrets. -/
theorem suits_iff_of_accepts (h : Accepts outside config secrets cfg)
    {item : String × CdnConfig} (hitem : item ∈ config.cdns.items) :
    Suits (· ∈ (credsFor cfg item.1).keys) item.2 ↔
      Suits (Offers secrets item.1) item.2 := by
  obtain ⟨creds, hget, hcreds⟩ := h.credentialsOf
    (List.mem_map_of_mem hitem : item.1 ∈ config.cdns.keys)
  have hoffered : (· ∈ (credsFor cfg item.1).keys) = Offers secrets item.1 := by
    funext key
    simp only [credsFor, hget, Option.getD_some]
    exact propext hcreds.mem_keys_iff
  rw [hoffered]

theorem startable_iff_of_accepts (h : Accepts outside config secrets cfg) :
    Startable outside ↔
      ∀ item ∈ config.cdns.items, Suits (Offers secrets item.1) item.2 := by
  constructor
  · rintro ⟨other, others, hdeclares, hkeeps, hsuits⟩
    rw [h.declares.unique hdeclares, h.keeps.unique hkeeps] at hsuits
    exact hsuits
  · exact fun hsuits => ⟨config, secrets, h.declares, h.keeps, hsuits⟩

/-- What `load` has accepted starts if and only if the secrets file has the
token of every Fastly CDN and the service account file of every GCP CDN, and
no GCP CDN has a quota below one. -/
theorem accepted_starts_iff
    (haccepted : load outside configPath secretsPath = .ok cfg) :
    Starts cfg ↔ Startable outside := by
  obtain ⟨config, secrets, h⟩ := load_eq_ok_iff.mp haccepted
  rw [starts_iff, startable_iff_of_accepts h, h.cdns]
  exact forall₂_congr fun item hitem => suits_iff_of_accepts h hitem

end Accepted

/-! ## Two accepted configurations -/

/-- One Fastly CDN and no watch. -/
def sampleConfig : Config where
  cdns := Dict.empty.set "f" (.fastly { serviceId := "S" })
  watches := []

def sampleConfigText : String :=
  "cdns:\n  f:\n    type: fastly\n    service_id: S\nwatches: []\n"

def sampleConfigData : Value :=
  let block : Value := .dict
    [(.str "type", .str "fastly"), (.str "service_id", .str "S")]
    (.ok "\x7b'type': 'fastly', 'service_id': 'S'\x7d")
  let cdns : Value := .dict [(.str "f", block)]
    (.ok "\x7b'f': \x7b'type': 'fastly', 'service_id': 'S'\x7d\x7d")
  .dict [(.str "cdns", cdns), (.str "watches", .other false (.ok "[]"))]
    (.ok ("\x7b'cdns': \x7b'f': \x7b'type': 'fastly', 'service_id': 'S'\x7d" ++
      "\x7d, 'watches': []\x7d"))

def sampleSecrets (key : String) : List (Value × Value) :=
  [(.str "f", .dict [(.str key, .str "x")] (.ok ("\x7b'" ++ key ++ "': 'x'\x7d")))]

/-- The secrets have one credential under a given key. -/
def sampleOutside (key : String) : Outside where
  stat := .value 0o100600
  configText := .value sampleConfigText
  secretsText := .value ("f:\n  " ++ key ++ ": x\n")
  safeLoad text :=
    if text = sampleConfigText then .value sampleConfigData
    else .value (.dict (sampleSecrets key)
      (.ok ("\x7b'f': \x7b'" ++ key ++ "': 'x'\x7d\x7d")))
  modelValidate _ := .value sampleConfig
  pathExists _ := .ok false
  repr text := "'" ++ text ++ "'"

/-- What `load` returns of it. -/
def sampleLoaded (key : String) : Config :=
  { sampleConfig with
    credentials := Dict.empty.set "f" (Dict.empty.set key "x") }

/-- With the token there is a provider. -/
theorem accepted_starts_iff_sample :
    load (sampleOutside "api_token") "config.yaml" "secrets.yaml" =
        .ok (sampleLoaded "api_token") ∧
      Startable (sampleOutside "api_token") ∧
      Starts (sampleLoaded "api_token") := by
  have haccepted : load (sampleOutside "api_token") "config.yaml"
      "secrets.yaml" = .ok (sampleLoaded "api_token") := by decide +kernel
  have hstartable : Startable (sampleOutside "api_token") := by
    refine ⟨sampleConfig, sampleSecrets "api_token",
      ⟨_, _, rfl, rfl, rfl⟩, ⟨_, _, rfl, rfl, rfl⟩, fun item hitem => ?_⟩
    obtain rfl : item = ("f", .fastly { serviceId := "S" }) :=
      List.mem_singleton.mp hitem
    exact ⟨_, _, rfl, rfl, _, List.mem_singleton_self _, rfl⟩
  exact ⟨haccepted, hstartable, (accepted_starts_iff haccepted).mpr hstartable⟩

/-- Credentials under another key are accepted as well, and the start ends
with `KeyError`. -/
theorem accepted_does_not_start :
    load (sampleOutside "token") "config.yaml" "secrets.yaml" =
        .ok (sampleLoaded "token") ∧
      buildProviders (sampleLoaded "token") =
        .error "KeyError: 'api_token'" ∧
      ¬ Starts (sampleLoaded "token") := by
  have hbuild : buildProviders (sampleLoaded "token") =
      .error "KeyError: 'api_token'" := by decide +kernel
  refine ⟨by decide +kernel, hbuild, ?_⟩
  rintro ⟨providers, hproviders, -⟩
  rw [hbuild] at hproviders
  cases hproviders

end MirrorMirage.Providers.Build
