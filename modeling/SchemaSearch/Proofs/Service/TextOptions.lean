import SchemaSearch.Proofs.Decimal.Numerals
import SchemaSearch.Proofs.Outcome
import SchemaSearch.Proofs.Settings.Overlays
import SchemaSearch.Service.Settings

/-!
# Texts from the environment

Six settings of the service are texts, and each can be set by a variable.  The value of a variable is looked
at before it is known what it is for: one that reads as a truth or a number becomes one, and is written again
where a text is asked for.  So a text arrives as it is if it reads as neither, or is the way in which what it
reads as is written; a version `1.10` arrives as `1.1`.

Main statements: what arrives for an option, that the option does not keep the settings from loading, and which
texts arrive as they are (`load_textOption`); and that not all of them do (`not_arrivesVerbatim`).
-/

namespace SchemaSearch

open Decimal

/-! ## What comes out of a value -/

namespace Setting

/-- The text that comes out of the value of a variable: what reads as a scalar is written again. -/
def shown (held : String) : String :=
  match scalarOfText? held with
  | some (.boolean b) => if b then "true" else "false"
  | some (.whole n) => toString n
  | some (.real x) => x.plainText
  | _ => held

/-- The texts that come out as they went in: those that read as no scalar, and the texts of truths, of 64-bit
numbers and of the doubles that are read back from theirs. -/
inductive IsVerbatim : String → Prop
  | text {held : String} (h : scalarOfText? held = none) : IsVerbatim held
  | boolean (b : Bool) : IsVerbatim (if b then "true" else "false")
  | whole {n : Int} (hlow : minSigned ≤ n) (hhigh : n ≤ maxSigned) : IsVerbatim (toString n)
  | real {x : Binary64} (h : scalarOfText? x.plainText = some (.real x)) : IsVerbatim x.plainText

variable {held : String}

/-- A value reads as a truth, as a whole number or as a double, if it reads as a scalar. -/
theorem scalarOfText?_cases {scalar : Setting} (h : scalarOfText? held = some scalar) :
    (∃ b, booleanOfText? held = some b ∧ scalar = .boolean b)
      ∨ (∃ n, readSigned held.toList = some n ∧ scalar = .whole n) ∨ ∃ x, scalar = .real x := by
  unfold scalarOfText? at h
  split at h
  · rename_i b hb
    cases h
    exact .inl ⟨b, hb, rfl⟩
  · split at h
    · rename_i n hn
      cases h
      exact .inr (.inl ⟨n, hn, rfl⟩)
    · obtain ⟨x, _, rfl⟩ := Option.map_eq_some_iff.mp h
      exact .inr (.inr ⟨x, rfl⟩)

/-- What is asked for as a text comes out of the value of a variable. -/
theorem asText_ofVariable {name : String} (hname : name ≠ listedSetting) :
    (ofVariable name held).asText = .ok (shown held) := by
  cases hscalar : scalarOfText? held with
  | none =>
    rw [ofVariable_of_scalarOfText?_eq_none hscalar hname, shown, hscalar]
    rfl
  | some scalar =>
    rw [ofVariable, shown, hscalar]
    obtain ⟨b, _, rfl⟩ | ⟨n, _, rfl⟩ | ⟨x, rfl⟩ := scalarOfText?_cases hscalar <;> rfl

/-- The text of a number is no word for a truth. -/
theorem booleanOfText?_toString (n : Int) : booleanOfText? (toString n) = none := by
  have hletters : ∀ c ∈ (toString n).toList, c.toLower ≠ 't' ∧ c.toLower ≠ 'f' := by
    have hdigits : ∀ d < 10, (Nat.digitChar d).toLower ≠ 't' ∧ (Nat.digitChar d).toLower ≠ 'f' := by decide
    intro c hc
    obtain hdigit | rfl | rfl := (denotes_toString n).isDigit_or c hc
    · obtain ⟨d, hd, rfl⟩ := exists_digitChar hdigit
      exact hdigits d hd
    · decide
    · decide
  have hword : ∀ first rest, (first = 't' ∨ first = 'f') →
      String.ofList (Text.asciiLower (toString n).toList) ≠ String.ofList (first :: rest) := by
    intro first rest hfirst hsame
    have hchars : (toString n).toList.map Char.toLower = first :: rest := String.ofList_injective hsame
    have hmem : first ∈ (toString n).toList.map Char.toLower := hchars ▸ List.mem_cons_self
    obtain ⟨c, hc, hlower⟩ := List.mem_map.mp hmem
    obtain ⟨ht, hf⟩ := hletters c hc
    rcases hfirst with rfl | rfl
    · exact ht hlower
    · exact hf hlower
  rw [booleanOfText?, if_neg (hword 't' ['r', 'u', 'e'] (.inl rfl)),
    if_neg (hword 'f' ['a', 'l', 's', 'e'] (.inr rfl))]

/-- A text comes out of the value of a variable as it went in if and only if it is one of those that do. -/
theorem shown_eq_self_iff : shown held = held ↔ IsVerbatim held := by
  constructor
  · intro h
    cases hscalar : scalarOfText? held with
    | none => exact .text hscalar
    | some scalar =>
      rw [shown, hscalar] at h
      obtain ⟨b, _, rfl⟩ | ⟨n, hn, rfl⟩ | ⟨x, rfl⟩ := scalarOfText?_cases hscalar
      · rw [← h]
        exact .boolean b
      · obtain ⟨hlow, hhigh⟩ := readSigned_bounds hn
        rw [← h]
        exact .whole hlow hhigh
      · rw [← h] at hscalar ⊢
        exact .real hscalar
  · intro h
    cases h with
    | text h => rw [shown, h]
    | boolean b => cases b <;> rfl
    | @whole n hlow hhigh =>
      have hread : readSigned (toString n).toList = some n :=
        readSigned_eq_some_iff.mpr ⟨denotes_toString n, hlow, hhigh⟩
      rw [shown, scalarOfText?, booleanOfText?_toString, hread]
    | real h => rw [shown, h]

end Setting

namespace Service

open Setting

/-! ## Options that are texts -/

/-- The settings of the service that are texts. -/
inductive TextOption where
  | databaseUrl | bindAddress | systemVersion | logLevel | defaultOrder | includeInactiveParam
  deriving DecidableEq, Repr

namespace TextOption

/-- The variable that sets an option. -/
def variableName : TextOption → String
  | .databaseUrl => "ROON__DATABASE_URL"
  | .bindAddress => "ROON__BIND_ADDRESS"
  | .systemVersion => "ROON__SYSTEM_VERSION"
  | .logLevel => "ROON__LOG__LEVEL"
  | .defaultOrder => "ROON__SEARCH__DEFAULT_ORDER_BY"
  | .includeInactiveParam => "ROON__SEARCH__INCLUDE_INACTIVE_PARAM"

/-- The setting that an option is. -/
def name : TextOption → String
  | .databaseUrl => "database_url"
  | .bindAddress => "bind_address"
  | .systemVersion => "system_version"
  | .logLevel => "log.level"
  | .defaultOrder => "search.default_order_by"
  | .includeInactiveParam => "search.include_inactive_param"

/-- The names on the path to an option. -/
def names : TextOption → List String
  | .databaseUrl => ["database_url"]
  | .bindAddress => ["bind_address"]
  | .systemVersion => ["system_version"]
  | .logLevel => ["log", "level"]
  | .defaultOrder => ["search", "default_order_by"]
  | .includeInactiveParam => ["search", "include_inactive_param"]

/-- What an option is set to. -/
def get (settings : Settings) : TextOption → String
  | .databaseUrl => settings.databaseUrl
  | .bindAddress => settings.bindAddress
  | .systemVersion => settings.systemVersion
  | .logLevel => settings.log.level
  | .defaultOrder => settings.search.defaultOrder
  | .includeInactiveParam => settings.search.includeInactiveParam

variable (option : TextOption)

theorem nameOfVariable_variableName : nameOfVariable option.variableName = some option.name := by
  cases option <;> decide

theorem pathOf_name : pathOf option.name = option.names.map .key := by
  cases option <;> decide

theorem areKeys_names : AreKeys option.names := by
  cases option <;> decide

theorem name_ne_listedSetting : option.name ≠ listedSetting := by
  cases option <;> decide

/-- Whether some variables set an option to one text, and otherwise only what lies apart from it: variables that
hold no setting, and settings whose path takes another key. -/
structure IsSet (held : String) (env : List (String × String)) : Prop where
  mem : (option.variableName, held) ∈ env
  only : ∀ other ∈ env, other = (option.variableName, held)
    ∨ ∀ otherName ∈ nameOfVariable other.1, isApart (pathOf otherName) option.names = true

end TextOption

/-! ## Reading the groups -/

section Groups

variable {entries : List (String × Setting)}

theorem LogSettings.ofSetting_table : LogSettings.ofSetting (.table entries) = (do
    let json ← orElse asTruth standard.json (Table.find? "json" entries)
    let level ← orElse asText standard.level (Table.find? "level" entries)
    .ok ⟨json, level⟩) := rfl

theorem LogSettings.fields_of_ofSetting {log : LogSettings}
    (h : LogSettings.ofSetting (.table entries) = .ok log) :
    orElse asTruth standard.json (Table.find? "json" entries) = .ok log.json
      ∧ orElse asText standard.level (Table.find? "level" entries) = .ok log.level := by
  rw [ofSetting_table] at h
  obtain ⟨_, hjson, h⟩ := bind_eq_ok h
  obtain ⟨_, hlevel, h⟩ := bind_eq_ok h
  cases h
  exact ⟨hjson, hlevel⟩

theorem searchOfSetting_table : searchOfSetting (.table entries) = (do
    let searchFilters ← orElse asTexts SearchConfig.standard.searchFilters (Table.find? "search_filters" entries)
    let defaultPageSize ← orElse asCount SearchConfig.standard.defaultPageSize
      (Table.find? "default_per_page" entries)
    let defaultOrder ← orElse asText SearchConfig.standard.defaultOrder (Table.find? "default_order_by" entries)
    let includeInactiveParam ← orElse asText SearchConfig.standard.includeInactiveParam
      (Table.find? "include_inactive_param" entries)
    .ok { searchFilters, defaultPageSize, defaultOrder, includeInactiveParam }) := rfl

theorem fields_of_searchOfSetting {c : SearchConfig} (h : searchOfSetting (.table entries) = .ok c) :
    orElse asTexts SearchConfig.standard.searchFilters (Table.find? "search_filters" entries) = .ok c.searchFilters
      ∧ orElse asCount SearchConfig.standard.defaultPageSize (Table.find? "default_per_page" entries)
        = .ok c.defaultPageSize
      ∧ orElse asText SearchConfig.standard.defaultOrder (Table.find? "default_order_by" entries)
        = .ok c.defaultOrder
      ∧ orElse asText SearchConfig.standard.includeInactiveParam (Table.find? "include_inactive_param" entries)
        = .ok c.includeInactiveParam := by
  rw [searchOfSetting_table] at h
  obtain ⟨_, hfilters, h⟩ := bind_eq_ok h
  obtain ⟨_, hsize, h⟩ := bind_eq_ok h
  obtain ⟨_, horder, h⟩ := bind_eq_ok h
  obtain ⟨_, hinactive, h⟩ := bind_eq_ok h
  cases h
  exact ⟨hfilters, hsize, horder, hinactive⟩

/-- A group that is read, or left out, has readings for the fields of a table in its place. -/
theorem LogSettings.exists_fields {group : Option Setting} {log : LogSettings}
    (h : orElse LogSettings.ofSetting standard group = .ok log) :
    ∃ json, orElse asTruth standard.json (Table.find? "json" (group.getD .missing).entries) = .ok json := by
  cases group with
  | none => exact ⟨_, rfl⟩
  | some value =>
    cases value with
    | table entries => exact ⟨_, (fields_of_ofSetting h).1⟩
    | _ => exact ⟨_, rfl⟩

theorem exists_searchFields {group : Option Setting} {c : SearchConfig}
    (h : orElse searchOfSetting SearchConfig.standard group = .ok c) :
    ∃ filters size order inactive,
      orElse asTexts SearchConfig.standard.searchFilters
          (Table.find? "search_filters" (group.getD .missing).entries) = .ok filters
        ∧ orElse asCount SearchConfig.standard.defaultPageSize
          (Table.find? "default_per_page" (group.getD .missing).entries) = .ok size
        ∧ orElse asText SearchConfig.standard.defaultOrder
          (Table.find? "default_order_by" (group.getD .missing).entries) = .ok order
        ∧ orElse asText SearchConfig.standard.includeInactiveParam
          (Table.find? "include_inactive_param" (group.getD .missing).entries) = .ok inactive := by
  cases group with
  | none => exact ⟨_, _, _, _, rfl, rfl, rfl, rfl⟩
  | some value =>
    cases value with
    | table entries => exact ⟨_, _, _, _, fields_of_searchOfSetting h⟩
    | _ => exact ⟨_, _, _, _, rfl, rfl, rfl, rfl⟩

theorem Settings.ofSetting_table : Settings.ofSetting (.table entries) = (do
    let databaseUrl ← orElse asText standard.databaseUrl (Table.find? "database_url" entries)
    let bindAddress ← orElse asText standard.bindAddress (Table.find? "bind_address" entries)
    let systemVersion ← orElse asText standard.systemVersion (Table.find? "system_version" entries)
    let log ← orElse LogSettings.ofSetting standard.log (Table.find? "log" entries)
    let search ← orElse searchOfSetting standard.search (Table.find? "search" entries)
    .ok { databaseUrl, bindAddress, systemVersion, log, search }) := rfl

theorem Settings.fields_of_ofSetting {settings : Settings}
    (h : Settings.ofSetting (.table entries) = .ok settings) :
    orElse asText standard.databaseUrl (Table.find? "database_url" entries) = .ok settings.databaseUrl
      ∧ orElse asText standard.bindAddress (Table.find? "bind_address" entries) = .ok settings.bindAddress
      ∧ orElse asText standard.systemVersion (Table.find? "system_version" entries) = .ok settings.systemVersion
      ∧ orElse LogSettings.ofSetting standard.log (Table.find? "log" entries) = .ok settings.log
      ∧ orElse searchOfSetting standard.search (Table.find? "search" entries) = .ok settings.search := by
  rw [ofSetting_table] at h
  obtain ⟨_, hurl, h⟩ := bind_eq_ok h
  obtain ⟨_, haddress, h⟩ := bind_eq_ok h
  obtain ⟨_, hversion, h⟩ := bind_eq_ok h
  obtain ⟨_, hlog, h⟩ := bind_eq_ok h
  obtain ⟨_, hsearch, h⟩ := bind_eq_ok h
  cases h
  exact ⟨hurl, haddress, hversion, hlog, hsearch⟩

/-- The settings are read if each of them is. -/
theorem Settings.exists_of_fields {url address version : String} {log : LogSettings} {search : SearchConfig}
    (hurl : orElse asText standard.databaseUrl (Table.find? "database_url" entries) = .ok url)
    (haddress : orElse asText standard.bindAddress (Table.find? "bind_address" entries) = .ok address)
    (hversion : orElse asText standard.systemVersion (Table.find? "system_version" entries) = .ok version)
    (hlog : orElse LogSettings.ofSetting standard.log (Table.find? "log" entries) = .ok log)
    (hsearch : orElse searchOfSetting standard.search (Table.find? "search" entries) = .ok search) :
    ∃ settings, Settings.ofSetting (.table entries) = .ok settings := by
  rw [ofSetting_table, hurl, haddress, hversion, hlog, hsearch]
  exact ⟨_, rfl⟩

end Groups

/-! ## Reading an option -/

namespace TextOption

variable {option : TextOption} {entries entries' : List (String × Setting)} {value : Setting} {text : String}
  {settings : Settings}

theorem find?_of_at? {name : String} {root : Setting} (h : at? [name] root = some value) :
    Table.find? name root.entries = some value := by
  obtain ⟨found, hfound, h⟩ := Option.bind_eq_some_iff.mp h
  rw [hfound, ← h]
  rfl

/-- What lies in a group is an entry of a table. -/
theorem exists_group {group name : String} (h : at? [group, name] (.table entries) = some value) :
    ∃ inner, Table.find? group entries = some (.table inner) ∧ Table.find? name inner = some value := by
  obtain ⟨found, hfound, h⟩ := Option.bind_eq_some_iff.mp h
  have hvalue := find?_of_at? h
  cases found with
  | table inner => exact ⟨inner, hfound, hvalue⟩
  | _ => cases hvalue

/-- The text of what the path to an option leads to is what the option is set to. -/
theorem get_of_at? (hat : at? option.names (.table entries) = some value) (htext : value.asText = .ok text)
    (h : Settings.ofSetting (.table entries) = .ok settings) : option.get settings = text := by
  obtain ⟨hurl, haddress, hversion, hlog, hsearch⟩ := Settings.fields_of_ofSetting h
  have hread : ∀ {standard read : String} {found : Option Setting}, found = some value →
      orElse asText standard found = .ok read → read = text := by
    rintro standard read found rfl hread
    exact Except.ok.inj (hread.symm.trans htext)
  cases option with
  | databaseUrl => exact hread (find?_of_at? hat) hurl
  | bindAddress => exact hread (find?_of_at? hat) haddress
  | systemVersion => exact hread (find?_of_at? hat) hversion
  | logLevel =>
    obtain ⟨inner, hgroup, hvalue⟩ := exists_group hat
    rw [hgroup] at hlog
    exact hread hvalue (LogSettings.fields_of_ofSetting hlog).2
  | defaultOrder =>
    obtain ⟨inner, hgroup, hvalue⟩ := exists_group hat
    rw [hgroup] at hsearch
    obtain ⟨-, -, horder, -⟩ := fields_of_searchOfSetting hsearch
    exact hread hvalue horder
  | includeInactiveParam =>
    obtain ⟨inner, hgroup, hvalue⟩ := exists_group hat
    rw [hgroup] at hsearch
    obtain ⟨-, -, -, hinactive⟩ := fields_of_searchOfSetting hsearch
    exact hread hvalue hinactive

/-- Settings that differ in one entry have the others in common. -/
theorem agree_entry {name : String} (h : AgreeBut [name] (.table entries) (.table entries')) :
    ∀ other, other ≠ name → Table.find? other entries = Table.find? other entries' := h.1

/-- Settings that differ in one entry of a group have the other groups in common, and the other entries of that
one. -/
theorem agree_group {group name : String} {inner : List (String × Setting)}
    (h : AgreeBut [group, name] (.table entries) (.table entries'))
    (hgroup : Table.find? group entries' = some (.table inner)) :
    (∀ other, other ≠ group → Table.find? other entries = Table.find? other entries')
      ∧ ∀ other, other ≠ name →
        Table.find? other ((Table.find? group entries).getD .missing).entries = Table.find? other inner := by
  obtain ⟨hothers, hinner, -⟩ := h
  change ∀ other, _ → _ = Table.find? other ((Table.find? group entries').getD .missing).entries at hinner
  rw [hgroup] at hinner
  exact ⟨hothers, hinner⟩

/-- An option that is a text does not keep settings from being read that are read without it. -/
theorem exists_ofSetting (hagree : AgreeBut option.names (.table entries) (.table entries'))
    (hat : at? option.names (.table entries') = some value) (htext : value.asText = .ok text)
    (h : Settings.ofSetting (.table entries) = .ok settings) :
    ∃ settings', Settings.ofSetting (.table entries') = .ok settings' := by
  obtain ⟨hurl, haddress, hversion, hlog, hsearch⟩ := Settings.fields_of_ofSetting h
  have hread : ∀ {standard : String} {found : Option Setting}, found = some value →
      orElse asText standard found = .ok text := by
    rintro standard found rfl
    exact htext
  cases option with
  | databaseUrl =>
    have hothers := agree_entry hagree
    rw [hothers _ (by decide)] at haddress hversion hlog hsearch
    exact Settings.exists_of_fields (hread (find?_of_at? hat)) haddress hversion hlog hsearch
  | bindAddress =>
    have hothers := agree_entry hagree
    rw [hothers _ (by decide)] at hurl hversion hlog hsearch
    exact Settings.exists_of_fields hurl (hread (find?_of_at? hat)) hversion hlog hsearch
  | systemVersion =>
    have hothers := agree_entry hagree
    rw [hothers _ (by decide)] at hurl haddress hlog hsearch
    exact Settings.exists_of_fields hurl haddress (hread (find?_of_at? hat)) hlog hsearch
  | logLevel =>
    obtain ⟨inner, hgroup, hvalue⟩ := exists_group hat
    obtain ⟨hothers, hinner⟩ := agree_group hagree hgroup
    obtain ⟨json, hjson⟩ := LogSettings.exists_fields hlog
    rw [hothers _ (by decide)] at hurl haddress hversion hsearch
    rw [hinner _ (by decide)] at hjson
    have hgroupRead : orElse LogSettings.ofSetting LogSettings.standard (Table.find? "log" entries')
        = .ok ⟨json, text⟩ := by
      rw [hgroup, orElse, LogSettings.ofSetting_table, hjson, hread hvalue]
      rfl
    exact Settings.exists_of_fields hurl haddress hversion hgroupRead hsearch
  | defaultOrder =>
    obtain ⟨inner, hgroup, hvalue⟩ := exists_group hat
    obtain ⟨hothers, hinner⟩ := agree_group hagree hgroup
    obtain ⟨filters, size, _, inactive, hfilters, hsize, _, hinactive⟩ := exists_searchFields hsearch
    rw [hothers _ (by decide)] at hurl haddress hversion hlog
    rw [hinner _ (by decide)] at hfilters hsize hinactive
    have hgroupRead : orElse searchOfSetting SearchConfig.standard (Table.find? "search" entries')
        = .ok ⟨filters, size, text, inactive⟩ := by
      rw [hgroup, orElse, searchOfSetting_table, hfilters, hsize, hread hvalue, hinactive]
      rfl
    exact Settings.exists_of_fields hurl haddress hversion hlog hgroupRead
  | includeInactiveParam =>
    obtain ⟨inner, hgroup, hvalue⟩ := exists_group hat
    obtain ⟨hothers, hinner⟩ := agree_group hagree hgroup
    obtain ⟨filters, size, order, _, hfilters, hsize, horder, _⟩ := exists_searchFields hsearch
    rw [hothers _ (by decide)] at hurl haddress hversion hlog
    rw [hinner _ (by decide)] at hfilters hsize horder
    have hgroupRead : orElse searchOfSetting SearchConfig.standard (Table.find? "search" entries')
        = .ok ⟨filters, size, order, text⟩ := by
      rw [hgroup, orElse, searchOfSetting_table, hfilters, hsize, horder, hread hvalue]
      rfl
    exact Settings.exists_of_fields hurl haddress hversion hlog hgroupRead

end TextOption

/-! ## Loading -/

/-- The settings that are left once a layer was laid over a table are a table. -/
theorem exists_foldl_overlay (layer : List (String × Setting)) :
    ∀ entries, ∃ entries', layer.foldl overlay (.table entries) = .table entries' := by
  induction layer with
  | nil => exact fun entries => ⟨entries, rfl⟩
  | cons entry layer ih =>
    intro entries
    obtain ⟨next, hnext⟩ := exists_overlay (.table entries) entry
    rw [List.foldl_cons, hnext]
    exact ih next

/-- The variables are laid over the settings file. -/
theorem Settings.load_eq (file : Option String) (dotenv : String) (env : List (String × String)) :
    Settings.load file dotenv env = readFile file >>= fun fromFile =>
      Settings.ofSetting ((ofVariables (Dotenv.load env dotenv)).foldl overlay
        (fromFile.foldl overlay noEntries)) := by
  simp only [Settings.load, List.foldl_append]

section Layer

variable {option : TextOption} {held : String} {env : List (String × String)}

/-- What a layer of variables sets an option to, and nothing else. -/
theorem TextOption.IsSet.sets (h : option.IsSet held env) :
    Sets (ofVariables env) option.name option.names (ofVariable option.name held) :=
  sets_ofVariables option.nameOfVariable_variableName h.only

theorem TextOption.IsSet.only_name (h : option.IsSet held env) :
    ∀ other ∈ env, other = (option.variableName, held) ∨ nameOfVariable other.1 ≠ some option.name := by
  intro other hother
  refine (h.only other hother).imp_right fun hapart hsame => ?_
  have hself := hapart _ hsame
  rw [option.pathOf_name, isApart_self option.areKeys_names] at hself
  exact Bool.false_ne_true hself

/-- A layer of variables that sets an option does so whatever it is laid over. -/
theorem TextOption.IsSet.at? (h : option.IsSet held env) (root : Setting) :
    at? option.names ((ofVariables env).foldl overlay root) = some (ofVariable option.name held) :=
  at?_foldl_of_mem option.pathOf_name option.areKeys_names h.sets
    (mem_ofVariables option.nameOfVariable_variableName h.mem h.only_name) root

/-- Without its variable, a layer makes the same of everything but the option. -/
theorem TextOption.IsSet.agree (h : option.IsSet held env) (root : Setting) :
    AgreeBut option.names
      ((ofVariables (env.filter (· ≠ (option.variableName, held)))).foldl overlay root)
      ((ofVariables env).foldl overlay root) := by
  rw [ofVariables_filter option.nameOfVariable_variableName h.only_name]
  exact AgreeBut.foldl_overlay option.pathOf_name option.areKeys_names h.sets (AgreeBut.refl option.names root)

end Layer

/-- Whatever else is set, and whatever the settings file holds: an option that is a text is what comes out of
the value of its variable; settings that load without that variable load with it; and what comes out is the
value itself if and only if it reads as no scalar or is the text of what it reads as. -/
theorem load_textOption (file : Option String) {option : TextOption} {held dotenv : String}
    {env : List (String × String)} (h : option.IsSet held (Dotenv.load env dotenv)) :
    (∀ settings, Settings.load file dotenv env = .ok settings → option.get settings = shown held)
      ∧ (∀ settings, Settings.load file ""
          ((Dotenv.load env dotenv).filter (· ≠ (option.variableName, held))) = .ok settings →
        ∃ settings', Settings.load file dotenv env = .ok settings')
      ∧ (shown held = held ↔ IsVerbatim held) := by
  have htext : (ofVariable option.name held).asText = .ok (shown held) :=
    asText_ofVariable option.name_ne_listedSetting
  simp only [Settings.load_eq]
  refine ⟨fun settings hload => ?_, fun settings hload => ?_, shown_eq_self_iff⟩
  · obtain ⟨fromFile, _, hread⟩ := bind_eq_ok hload
    obtain ⟨before, hbefore⟩ := exists_foldl_overlay fromFile []
    obtain ⟨entries, hentries⟩ := exists_foldl_overlay (ofVariables (Dotenv.load env dotenv)) before
    have hat := h.at? (.table before)
    rw [noEntries, hbefore, hentries] at hread
    rw [hentries] at hat
    exact TextOption.get_of_at? hat htext hread
  · obtain ⟨fromFile, hfile, hread⟩ := bind_eq_ok hload
    obtain ⟨before, hbefore⟩ := exists_foldl_overlay fromFile []
    obtain ⟨without, hwithout⟩ := exists_foldl_overlay
      (ofVariables ((Dotenv.load env dotenv).filter (· ≠ (option.variableName, held)))) before
    obtain ⟨entries, hentries⟩ := exists_foldl_overlay (ofVariables (Dotenv.load env dotenv)) before
    have hat := h.at? (.table before)
    have hagree := h.agree (.table before)
    rw [hentries] at hat hagree
    rw [hwithout] at hagree
    have hunset : Dotenv.load ((Dotenv.load env dotenv).filter (· ≠ (option.variableName, held))) ""
        = (Dotenv.load env dotenv).filter (· ≠ (option.variableName, held)) := rfl
    rw [noEntries, hbefore, hunset, hwithout] at hread
    obtain ⟨settings', hsettings'⟩ := TextOption.exists_ofSetting hagree hat htext hread
    refine ⟨settings', ?_⟩
    rw [hfile, ok_bind, noEntries, hbefore, hentries, hsettings']

/-- A version among other variables, with a level of the log in a `.env` file. -/
theorem load_textOption_sample :
    ∃ settings, Settings.load none "ROON__LOG__LEVEL = debug"
        [("PATH", "/bin"), ("ROON__SYSTEM_VERSION", "2024.06.1"), ("ROON__LOG__JSON", "1")] = .ok settings
      ∧ settings.systemVersion = "2024.06.1" := by
  have hset : TextOption.systemVersion.IsSet "2024.06.1" (Dotenv.load
      [("PATH", "/bin"), ("ROON__SYSTEM_VERSION", "2024.06.1"), ("ROON__LOG__JSON", "1")]
      "ROON__LOG__LEVEL = debug") := ⟨by decide +kernel, by decide +kernel⟩
  obtain ⟨hget, hload, hverbatim⟩ := load_textOption none hset
  obtain ⟨settings, hsettings⟩ := hload ⟨Settings.standard.databaseUrl, Settings.standard.bindAddress,
    Settings.standard.systemVersion, ⟨true, "debug"⟩, Settings.standard.search⟩ (by decide +kernel)
  refine ⟨settings, hsettings, ?_⟩
  rw [← hverbatim.mpr (.text (by decide +kernel))]
  exact hget settings hsettings

/-- What is asked of texts from the environment: each arrives as it is, whatever the settings file holds. -/
def ArrivesVerbatim : Prop :=
  ∀ (option : TextOption) (held : String) (file : Option String) (settings : Settings),
    Text.trim held.toList = held.toList → Settings.load file "" [] = .ok settings →
    ∃ settings', Settings.load file "" [(option.variableName, held)] = .ok settings'
      ∧ option.get settings' = held

/-- A version with zeros in front loses them. -/
theorem not_arrivesVerbatim : ¬ ArrivesVerbatim := by
  intro h
  obtain ⟨settings, hsettings, hget⟩ := h .systemVersion "007" none .standard (by decide +kernel) (by decide +kernel)
  have hloaded : Settings.load none "" [("ROON__SYSTEM_VERSION", "007")]
      = .ok { Settings.standard with systemVersion := "7" } := by decide +kernel
  cases hsettings.symm.trans hloaded
  exact absurd hget (by decide)

end Service

end SchemaSearch
