import SchemaSearch.Search.Config
import SchemaSearch.Settings.Decode
import SchemaSearch.Settings.Dotenv
import SchemaSearch.Settings.Environment
import SchemaSearch.Settings.Toml.Reader

/-!
# Settings of the service

The settings come in layers: what holds when nothing is set, then a settings file, then the environment,
to which a `.env` file may add variables.  A later layer wins setting by setting.
-/

namespace SchemaSearch.Service

open Setting

/-- What is logged, and how. -/
structure LogSettings where
  /-- Whether each record is a JSON object on a line. -/
  json : Bool
  level : String
  deriving DecidableEq, Repr

/-- The settings of the service. -/
structure Settings where
  databaseUrl : String
  bindAddress : String
  /-- What the service reports as its version. -/
  systemVersion : String
  log : LogSettings
  search : SearchConfig
  deriving DecidableEq, Repr

/-- How the service logs when nothing is set. -/
def LogSettings.standard : LogSettings := ⟨false, "info"⟩

/-- The settings that hold when nothing is set. -/
def Settings.standard : Settings where
  databaseUrl := "sqlite://roon.db?mode=rwc"
  bindAddress := "0.0.0.0:8000"
  systemVersion := "0.3.0"
  log := .standard
  search := .standard

/-! ## Reading the groups -/

/-- The settings of the log from their fields. -/
def LogSettings.ofFields : List (Option Setting) → Except SettingsError LogSettings
  | [json, level] => do
    let json ← orElse asTruth LogSettings.standard.json json
    let level ← orElse asText LogSettings.standard.level level
    .ok ⟨json, level⟩
  | _ => .ok .standard

/-- The settings of the log. -/
def LogSettings.ofSetting (s : Setting) : Except SettingsError LogSettings := do
  LogSettings.ofFields (← s.asGroup ["json", "level"])

/-- The settings of searches from their fields. -/
def searchOfFields : List (Option Setting) → Except SettingsError SearchConfig
  | [filters, size, order, inactive] => do
    let standard := SearchConfig.standard
    let searchFilters ← orElse asTexts standard.searchFilters filters
    let defaultPageSize ← orElse asCount standard.defaultPageSize size
    let defaultOrder ← orElse asText standard.defaultOrder order
    let includeInactiveParam ← orElse asText standard.includeInactiveParam inactive
    .ok { searchFilters, defaultPageSize, defaultOrder, includeInactiveParam }
  | _ => .ok .standard

/-- The settings of searches. -/
def searchOfSetting (s : Setting) : Except SettingsError SearchConfig := do
  searchOfFields (← s.asGroup
    ["search_filters", "default_per_page", "default_order_by", "include_inactive_param"])

namespace Settings

/-- The settings of the service from their fields. -/
def ofFields : List (Option Setting) → Except SettingsError Settings
  | [url, address, version, log, search] => do
    let databaseUrl ← orElse asText standard.databaseUrl url
    let bindAddress ← orElse asText standard.bindAddress address
    let systemVersion ← orElse asText standard.systemVersion version
    let log ← orElse LogSettings.ofSetting standard.log log
    let search ← orElse searchOfSetting standard.search search
    .ok { databaseUrl, bindAddress, systemVersion, log, search }
  | _ => .ok standard

/-- The settings of the service. -/
def ofSetting (s : Setting) : Except SettingsError Settings := do
  ofFields (← s.asGroup ["database_url", "bind_address", "system_version", "log", "search"])

/-! ## Layers -/

/-- The entries of the settings file; without a file there are none. -/
def readFile : Option String → Except SettingsError (List (String × Setting))
  | none => .ok []
  | some content =>
    match Toml.read? content with
    | some entries => .ok entries
    | none => .error .badFile

/-- Load the settings from a settings file, a `.env` file and the variables that are set. -/
def load (file : Option String) (dotenv : String) (env : List (String × String)) :
    Except SettingsError Settings := do
  let fromFile ← readFile file
  let fromVariables := ofVariables (Dotenv.load env dotenv)
  ofSetting ((fromFile ++ fromVariables).foldl overlay .noEntries)

end Settings

end SchemaSearch.Service
