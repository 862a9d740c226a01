import UserManagedAccess.Proofs.GuessedValues
import UserManagedAccess.Proofs.Variables

/-! What becomes of the values that are set. A text in the file arrives as it is; the text of a
variable arrives as it is unless it looks like a number or a truth value that is usually written
otherwise; a port arrives as it is unless it is too great for one. -/
namespace UserManagedAccess

/-! ## Settings from a tree -/

namespace SettingTree
variable {tree section_ x : SettingTree} {name : String}

section
variable {α : Type} {place : Nat} {convert : SettingTree → Option α} {default made : α}

/-- A setting that stands under its name is made of the value there. -/
theorem convert_of_setting (h : section_.setting place name convert default = some made)
    (hfound : KeyMap.findEntry name section_.entries = some x) : convert x = some made := by
  cases section_ with
  | table entries =>
    have hentry : KeyMap.findEntry name entries = some x := hfound
    simpa [setting, lookup?, hentry] using h
  | _ => cases hfound

/-- A setting of a section is made with the section that it stands in. -/
theorem exists_section_of_find? {table : String}
    (h : tree.setting place table convert default = some made)
    (hfound : tree.find? [table, name] = some x) :
    ∃ section_, convert section_ = some made ∧
      KeyMap.findEntry name section_.entries = some x := by
  obtain ⟨section_, hsection, hrest⟩ := find?_cons_eq_some.mp hfound
  obtain ⟨_, hname, heq⟩ := find?_cons_eq_some.mp hrest
  cases heq
  exact ⟨section_, convert_of_setting h hsection, hname⟩

end

theorem sections_of_toSettings? {settings : Settings} (h : tree.toSettings? = some settings) :
    tree.setting 0 "server" toServerSettings? {} = some settings.server ∧
      tree.setting 1 "policy" toPolicySettings? {} = some settings.policy ∧
      tree.setting 2 "verifiers" toVerifierSettings? {} = some settings.verifiers ∧
      tree.setting 3 "tokens" toTokenSettings? {} = some settings.tokens := by
  simp only [toSettings?, Option.bind_eq_bind, Option.bind_eq_some_iff, Option.pure_def,
    Option.some.injEq] at h
  obtain ⟨_, hserver, _, hpolicy, _, hverifiers, _, htokens, rfl⟩ := h
  exact ⟨hserver, hpolicy, hverifiers, htokens⟩

theorem settings_of_toServerSettings? {server : ServerSettings}
    (h : section_.toServerSettings? = some server) :
    section_.setting 0 "host" toText? "127.0.0.1" = some server.host ∧
      section_.setting 1 "port" toPort? 4000 = some server.port ∧
      section_.setting 2 "base_url" (optional toText?) none = some server.baseUrl := by
  simp only [toServerSettings?, Option.bind_eq_bind, Option.bind_eq_some_iff, Option.pure_def,
    Option.some.injEq] at h
  obtain ⟨_, hhost, _, hport, _, hbaseUrl, rfl⟩ := h
  exact ⟨hhost, hport, hbaseUrl⟩

theorem settings_of_toPolicySettings? {policy : PolicySettings}
    (h : section_.toPolicySettings? = some policy) :
    section_.setting 0 "kind" toPolicyChoice? .namespaced = some policy.kind ∧
      section_.setting 1 "namespaces" toTexts? [] = some policy.namespaces ∧
      section_.setting 2 "rules_file" (optional toText?) none = some policy.rulesFile ∧
      section_.setting 3 "derivation" toBool? true = some policy.derivation := by
  simp only [toPolicySettings?, Option.bind_eq_bind, Option.bind_eq_some_iff, Option.pure_def,
    Option.some.injEq] at h
  obtain ⟨_, hkind, _, hnamespaces, _, hrulesFile, _, hderivation, rfl⟩ := h
  exact ⟨hkind, hnamespaces, hrulesFile, hderivation⟩

theorem settings_of_toTokenSettings? {tokens : TokenSettings}
    (h : section_.toTokenSettings? = some tokens) :
    section_.setting 0 "opaque" toBool? false = some tokens.keptByServer ∧
      section_.setting 1 "ttl_secs" toSigned? 1800 = some tokens.lifetime ∧
      section_.setting 2 "signing_key" (optional toText?) none = some tokens.signingKey ∧
      section_.setting 3 "key_id" toText? "uma-as" = some tokens.keyId := by
  simp only [toTokenSettings?, Option.bind_eq_bind, Option.bind_eq_some_iff, Option.pure_def,
    Option.some.injEq] at h
  obtain ⟨_, hkept, _, hlifetime, _, hsigningKey, _, hkeyId, rfl⟩ := h
  exact ⟨hkept, hlifetime, hsigningKey, hkeyId⟩

/-- No text is made from a table or a list, and no port. -/
theorem toText?_of_isCompound (h : x.isCompound = true) : x.toText? = none := by
  cases x <;> first | rfl | cases h

theorem toPort?_of_isCompound (h : x.isCompound = true) : x.toPort? = none := by
  cases x <;> first | rfl | cases h

theorem optional_eq {α : Type} (hx : x ≠ .absent) (convert : SettingTree → Option α) :
    optional convert x = (convert x).map some := by
  unfold optional
  split
  · exact absurd rfl hx
  · rfl

theorem optional_eq_some {text : Option String} (hx : x ≠ .absent)
    (h : optional toText? x = some text) : ∃ written, x.toText? = some written ∧
      text = some written := by
  rw [optional_eq hx] at h
  obtain ⟨written, hwritten, rfl⟩ := Option.map_eq_some_iff.mp h
  exact ⟨written, hwritten, rfl⟩

/-! ## Ports -/

theorem toPort?_lt {port : Nat} (h : x.toPort? = some port) : port < 65536 := by
  obtain ⟨n, -, rfl⟩ := Option.map_eq_some_iff.mp h
  exact Nat.mod_lt n (by decide)

/-- Of a whole number the last sixteen bits are the port; one below zero is refused. -/
theorem toPort?_whole {n : Int} {port : Nat} :
    toPort? (.whole n) = some port ↔ 0 ≤ n ∧ (port : Int) = n % 65536 := by
  rw [toPort?, toUnsigned?]
  by_cases hn : 0 ≤ n
  · simp only [hn, ↓reduceIte, Option.map_some, Option.some.injEq, true_and]
    omega
  · simp [hn]

/-- What is left of a number of sixty-four bits. -/
theorem eq_emod_of_standsFor {n : Int} {port : Nat} (hx : x.StandsFor n)
    (hfits : Word.fitsSigned n = true) (h : x.toPort? = some port) :
    0 ≤ n ∧ (port : Int) = n % 65536 := by
  rcases hx with rfl | ⟨hlarge, -⟩
  · exact toPort?_whole.mp h
  · rw [hfits] at hlarge
    cases hlarge

/-- A number arrives as a port exactly if it is one. -/
theorem eq_port_iff {n : Int} {port : Nat} (hx : x.StandsFor n) (h : x.toPort? = some port) :
    (port : Int) = n ↔ 0 ≤ n ∧ n ≤ 65535 := by
  have hlt := toPort?_lt h
  rcases hx with rfl | ⟨hfits, -⟩
  · obtain ⟨hn, hport⟩ := toPort?_whole.mp h
    omega
  · have hout : ¬ (Word.signedLow ≤ n ∧ n ≤ Word.signedHigh) := by
      rw [← Bool.not_eq_true] at hfits
      simpa [Word.fitsSigned] using hfits
    simp only [Word.signedLow, Word.signedHigh] at hout
    omega

/-- A number that is not below zero is never refused as a port. -/
theorem exists_toPort?_eq {n : Int} (hx : x.StandsFor n) (hn : 0 ≤ n) :
    ∃ port, x.toPort? = some port := by
  rcases hx with rfl | ⟨-, y, rfl⟩
  · exact ⟨(n % 65536).toNat, toPort?_whole.mpr ⟨hn, by omega⟩⟩
  · exact ⟨_, rfl⟩

theorem port_eq {settings : Settings} (h : tree.toSettings? = some settings)
    (hfound : tree.find? ["server", "port"] = some x) :
    x.toPort? = some settings.server.port := by
  obtain ⟨hserver, -⟩ := sections_of_toSettings? h
  obtain ⟨_, hmade, hname⟩ := exists_section_of_find? hserver hfound
  obtain ⟨-, hport, -⟩ := settings_of_toServerSettings? hmade
  exact convert_of_setting hport hname

end SettingTree

/-! ## Settings that are texts -/

inductive TextSetting where
  | host
  | baseUrl
  | rulesFile
  | signingKey
  | keyId
  deriving DecidableEq, Repr

namespace TextSetting

/-- The section of a setting. -/
def table : TextSetting → String
  | .host | .baseUrl => "server"
  | .rulesFile => "policy"
  | .signingKey | .keyId => "tokens"

/-- The name of a setting in its section. -/
def name : TextSetting → String
  | .host => "host"
  | .baseUrl => "base_url"
  | .rulesFile => "rules_file"
  | .signingKey => "signing_key"
  | .keyId => "key_id"

/-- The variable of a setting. -/
def variableName : TextSetting → String
  | .host => "UMA__SERVER__HOST"
  | .baseUrl => "UMA__SERVER__BASE_URL"
  | .rulesFile => "UMA__POLICY__RULES_FILE"
  | .signingKey => "UMA__TOKENS__SIGNING_KEY"
  | .keyId => "UMA__TOKENS__KEY_ID"

/-- The text that is set. -/
def read (settings : Settings) : TextSetting → Option String
  | .host => some settings.server.host
  | .baseUrl => settings.server.baseUrl
  | .rulesFile => settings.policy.rulesFile
  | .signingKey => settings.tokens.signingKey
  | .keyId => some settings.tokens.keyId

variable {tree x : SettingTree} {settings : Settings}

theorem isName (setting : TextSetting) :
    SettingStep.IsName setting.table ∧ SettingStep.IsName setting.name := by
  cases setting <;> decide

/-- The text of a setting is made of the value at its place. -/
theorem read_eq (setting : TextSetting) (h : tree.toSettings? = some settings)
    (hfound : tree.find? [setting.table, setting.name] = some x) (hx : x ≠ .absent) :
    ∃ written, x.toText? = some written ∧ setting.read settings = some written := by
  obtain ⟨hserver, hpolicy, -, htokens⟩ := SettingTree.sections_of_toSettings? h
  cases setting with
  | host =>
    obtain ⟨_, hmade, hname⟩ := SettingTree.exists_section_of_find? hserver hfound
    obtain ⟨hhost, -⟩ := SettingTree.settings_of_toServerSettings? hmade
    exact ⟨_, SettingTree.convert_of_setting hhost hname, rfl⟩
  | baseUrl =>
    obtain ⟨_, hmade, hname⟩ := SettingTree.exists_section_of_find? hserver hfound
    obtain ⟨-, -, hbaseUrl⟩ := SettingTree.settings_of_toServerSettings? hmade
    exact SettingTree.optional_eq_some hx (SettingTree.convert_of_setting hbaseUrl hname)
  | rulesFile =>
    obtain ⟨_, hmade, hname⟩ := SettingTree.exists_section_of_find? hpolicy hfound
    obtain ⟨-, -, hrulesFile, -⟩ := SettingTree.settings_of_toPolicySettings? hmade
    exact SettingTree.optional_eq_some hx (SettingTree.convert_of_setting hrulesFile hname)
  | signingKey =>
    obtain ⟨_, hmade, hname⟩ := SettingTree.exists_section_of_find? htokens hfound
    obtain ⟨-, -, hsigningKey, -⟩ := SettingTree.settings_of_toTokenSettings? hmade
    exact SettingTree.optional_eq_some hx (SettingTree.convert_of_setting hsigningKey hname)
  | keyId =>
    obtain ⟨_, hmade, hname⟩ := SettingTree.exists_section_of_find? htokens hfound
    obtain ⟨-, -, -, hkeyId⟩ := SettingTree.settings_of_toTokenSettings? hmade
    exact ⟨_, SettingTree.convert_of_setting hkeyId hname, rfl⟩

end TextSetting

/-! ## What is given -/

/-- A variable gives a text for a setting of a section, and no variable gives settings of the section
by their number in it. -/
def EnvironmentVariable.Gives (environment : List (String × String)) (table name text : String) :
    Prop :=
  given? environment (table ++ "." ++ name) = some text ∧ ¬ Indexes environment table

/-- A file gives a value for a setting of a section, and no variable is for the setting or the whole
section or gives settings of the section by their number in it. -/
def SettingsFile.Gives [FileFormats] (file : SettingsFile) (environment : List (String × String))
    (table name : String) (x : SettingTree) : Prop :=
  ∃ tree, Settings.tree? file [] = some tree ∧ tree.find? [table, name] = some x ∧
    EnvironmentVariable.Spares environment [table, name]

namespace Settings
variable {file : SettingsFile} {environment : List (String × String)} {settings : Settings}
  {table name text : String} {tree x : SettingTree}

/-- The text of a setting is made of what is given for it. -/
theorem read_of_find? (setting : TextSetting) (h : tree.toSettings? = some settings)
    (hfound : ∃ y, tree.find? [setting.table, setting.name] = some y ∧
      (y = x ∨ y.isCompound = true)) (hx : x ≠ .absent) :
    ∃ written, x.toText? = some written ∧ setting.read settings = some written := by
  obtain ⟨y, hy, rfl | hcompound⟩ := hfound
  · exact setting.read_eq h hy hx
  · obtain ⟨written, hwritten, -⟩ := setting.read_eq h hy (by rintro rfl; cases hcompound)
    rw [SettingTree.toText?_of_isCompound hcompound] at hwritten
    cases hwritten

theorem port_of_find? (h : tree.toSettings? = some settings)
    (hfound : ∃ y, tree.find? ["server", "port"] = some y ∧ (y = x ∨ y.isCompound = true)) :
    x.toPort? = some settings.server.port := by
  obtain ⟨y, hy, rfl | hcompound⟩ := hfound
  · exact SettingTree.port_eq h hy
  · have hport := SettingTree.port_eq h hy
    rw [SettingTree.toPort?_of_isCompound hcompound] at hport
    cases hport

theorem setting?_variableName (setting : TextSetting) :
    EnvironmentVariable.setting? setting.variableName =
      some (setting.table ++ "." ++ setting.name) := by
  cases setting <;> decide +kernel

theorem setting?_port :
    EnvironmentVariable.setting? "UMA__SERVER__PORT" = some ("server" ++ "." ++ "port") := by
  decide +kernel

theorem gives_single {variableName : String}
    (hsetting : EnvironmentVariable.setting? variableName = some (table ++ "." ++ name))
    (htable : SettingStep.IsName table) (hname : SettingStep.IsName name) :
    EnvironmentVariable.Gives [(variableName, text)] table name text := by
  refine ⟨by simp [EnvironmentVariable.given?, hsetting], ?_⟩
  rintro ⟨entry, hentry, name', i, path, hsetting', hpath⟩
  cases List.mem_singleton.mp hentry
  rw [hsetting] at hsetting'
  cases hsetting'
  cases (SettingStep.pathOf_dotted htable hname).symm.trans hpath

section
variable [FileFormats]

theorem load_eq_ok_iff : load file environment = .ok settings ↔
    ∃ tree, tree? file environment = some tree ∧ tree.toSettings? = some settings := by
  rw [← Option.bind_eq_some_iff, load]
  cases (tree? file environment).bind SettingTree.toSettings? <;> simp

theorem exists_fault_of_load {error : Error} (h : load file environment = .error error) :
    ∃ fault, error = .config fault := by
  rw [load] at h
  split at h
  · cases h
  · cases h
    exact ⟨_, rfl⟩

/-- A whole number is given for the port: by a variable, or else by the file. -/
def GivesPort (file : SettingsFile) (environment : List (String × String)) (n : Int) : Prop :=
  (∃ text, EnvironmentVariable.Gives environment "server" "port" text ∧
    Decimal.Writes text.toList n) ∨
    ∃ x, file.Gives environment "server" "port" x ∧ x.StandsFor n

theorem exists_find?_of_variable (h : EnvironmentVariable.Gives environment table name text)
    (htable : SettingStep.IsName table) (hname : SettingStep.IsName name)
    (htree : tree? file environment = some tree) :
    ∃ y, tree.find? [table, name] = some y ∧
      (y = EnvironmentVariable.value text ∨ y.isCompound = true) := by
  obtain ⟨entries, -, rfl⟩ := Option.map_eq_some_iff.mp htree
  exact EnvironmentVariable.exists_find?_of_given htable hname h.1 h.2 _

theorem exists_find?_of_file (h : file.Gives environment table name x)
    (htree : tree? file environment = some tree) :
    ∃ y, tree.find? [table, name] = some y ∧ (y = x ∨ y.isCompound = true) := by
  obtain ⟨_, halone, hfound, hspares⟩ := h
  obtain ⟨entries, hentries, rfl⟩ := Option.map_eq_some_iff.mp htree
  rw [tree?, hentries] at halone
  cases halone
  exact EnvironmentVariable.exists_find?_of_spares hspares hfound

theorem read_of_variable (setting : TextSetting) (hload : load file environment = .ok settings)
    (h : EnvironmentVariable.Gives environment setting.table setting.name text) :
    setting.read settings = some text ↔ EnvironmentVariable.IsKept text := by
  obtain ⟨tree, htree, hmade⟩ := load_eq_ok_iff.mp hload
  obtain ⟨htable, hname⟩ := setting.isName
  obtain ⟨written, hwritten, hread⟩ :=
    read_of_find? setting hmade (exists_find?_of_variable h htable hname htree)
      (EnvironmentVariable.value_ne_absent text)
  rw [hread, ← EnvironmentVariable.toText?_value_iff, hwritten]

theorem read_of_file (setting : TextSetting) (hload : load file environment = .ok settings)
    (h : file.Gives environment setting.table setting.name (.text text)) :
    setting.read settings = some text := by
  obtain ⟨tree, htree, hmade⟩ := load_eq_ok_iff.mp hload
  obtain ⟨written, hwritten, hread⟩ :=
    read_of_find? setting hmade (exists_find?_of_file h htree) (by simp)
  cases hwritten
  exact hread

theorem exists_standsFor_of_gives {n : Int} (hload : load file environment = .ok settings)
    (h : GivesPort file environment n) :
    ∃ x, SettingTree.StandsFor x n ∧ x.toPort? = some settings.server.port := by
  obtain ⟨tree, htree, hmade⟩ := load_eq_ok_iff.mp hload
  rcases h with ⟨text, hgives, hwrites⟩ | ⟨x, hgives, hstands⟩
  · exact ⟨_, EnvironmentVariable.standsFor_value hwrites,
      port_of_find? hmade (exists_find?_of_variable hgives (by decide) (by decide) htree)⟩
  · exact ⟨x, hstands, port_of_find? hmade (exists_find?_of_file hgives htree)⟩

/-! ## One variable alone -/

theorem tree?_single {variableName : String}
    (hsetting : EnvironmentVariable.setting? variableName = some (table ++ "." ++ name))
    (htable : SettingStep.IsName table) (hname : SettingStep.IsName name) :
    tree? .unused [(variableName, text)] =
      some (.table [(table, .table [(name, EnvironmentVariable.value text)])]) := by
  have hpath := SettingStep.pathOf_dotted htable hname
  have hover := SettingTree.overlay_of_not_isCompound (EnvironmentVariable.isCompound_value text)
  simp [-String.toList_append, tree?, SettingsFile.entries?, EnvironmentVariable.entries, hsetting,
    KeyMap.sortEntries, KeyMap.insertEntry, SettingTree.putAll, hpath, SettingTree.put,
    SettingTree.entries, KeyMap.findEntry, hover]

/-- A text is never refused. -/
theorem exists_load_text (setting : TextSetting) (text : String) :
    ∃ settings, load .unused [(setting.variableName, text)] = .ok settings := by
  obtain ⟨htable, hname⟩ := setting.isName
  obtain ⟨written, hwritten⟩ := EnvironmentVariable.exists_toText?_value text
  have hoptional := SettingTree.optional_eq (EnvironmentVariable.value_ne_absent text)
    SettingTree.toText?
  simp only [load_eq_ok_iff, tree?_single (setting?_variableName setting) htable hname,
    Option.some.injEq, exists_eq_left']
  cases setting <;>
    simp [TextSetting.table, TextSetting.name, SettingTree.toSettings?, SettingTree.setting,
      SettingTree.lookup?, KeyMap.findEntry, SettingTree.toServerSettings?,
      SettingTree.toPolicySettings?, SettingTree.toTokenSettings?, hwritten, hoptional]

/-- A port that is not below zero is never refused. -/
theorem exists_load_port {n : Int} (hwrites : Decimal.Writes text.toList n) (hn : 0 ≤ n) :
    ∃ settings, load .unused [("UMA__SERVER__PORT", text)] = .ok settings := by
  obtain ⟨port, hport⟩ :=
    SettingTree.exists_toPort?_eq (EnvironmentVariable.standsFor_value hwrites) hn
  simp only [load_eq_ok_iff, tree?_single setting?_port (by decide) (by decide),
    Option.some.injEq, exists_eq_left']
  simp [SettingTree.toSettings?, SettingTree.setting, SettingTree.lookup?, KeyMap.findEntry,
    SettingTree.toServerSettings?, hport]

/-! ## What arrives -/

/-- Loading either fails or gives settings in which a text of the file stands as it was written, a
text of a variable stands as it was written just if it is kept when it is guessed what it means, and
a number stands as the port just if it is one; of another number of sixty-four bits the last sixteen
bits are left. Alone, no text of a variable and no number that is not below zero is refused. -/
theorem loaded_as_given_iff (file : SettingsFile) (environment : List (String × String)) :
    ((∃ fault, load file environment = .error (.config fault)) ∨
      ∃ settings, load file environment = .ok settings ∧
        (∀ (setting : TextSetting) text,
          EnvironmentVariable.Gives environment setting.table setting.name text →
            (setting.read settings = some text ↔ EnvironmentVariable.IsKept text)) ∧
        (∀ (setting : TextSetting) text,
          file.Gives environment setting.table setting.name (.text text) →
            setting.read settings = some text) ∧
        ∀ n, GivesPort file environment n →
          ((settings.server.port : Int) = n ↔ 0 ≤ n ∧ n ≤ 65535) ∧
            (Word.fitsSigned n = true →
              0 ≤ n ∧ (settings.server.port : Int) = n % 65536)) ∧
    (∀ (setting : TextSetting) text, ∃ settings,
      load .unused [(setting.variableName, text)] = .ok settings ∧
        (setting.read settings = some text ↔ EnvironmentVariable.IsKept text)) ∧
    ∀ text n, Decimal.Writes text.toList n → 0 ≤ n → ∃ settings,
      load .unused [("UMA__SERVER__PORT", text)] = .ok settings ∧
        ((settings.server.port : Int) = n ↔ n ≤ 65535) := by
  refine ⟨?_, fun setting text => ?_, fun text n hwrites hn => ?_⟩
  · cases hload : load file environment with
    | error error =>
      obtain ⟨fault, rfl⟩ := exists_fault_of_load hload
      exact .inl ⟨fault, rfl⟩
    | ok settings =>
      refine .inr ⟨settings, rfl, fun setting text h => read_of_variable setting hload h,
        fun setting text h => read_of_file setting hload h, fun n h => ?_⟩
      obtain ⟨x, hstands, hport⟩ := exists_standsFor_of_gives hload h
      exact ⟨SettingTree.eq_port_iff hstands hport,
        fun hfits => SettingTree.eq_emod_of_standsFor hstands hfits hport⟩
  · obtain ⟨settings, hload⟩ := exists_load_text setting text
    obtain ⟨htable, hname⟩ := setting.isName
    exact ⟨settings, hload, read_of_variable setting hload
      (gives_single (setting?_variableName setting) htable hname)⟩
  · obtain ⟨settings, hload⟩ := exists_load_port hwrites hn
    have hgives : GivesPort .unused [("UMA__SERVER__PORT", text)] n :=
      .inl ⟨text, gives_single setting?_port (by decide) (by decide), hwrites⟩
    obtain ⟨x, hstands, hport⟩ := exists_standsFor_of_gives hload hgives
    refine ⟨settings, hload, ?_⟩
    rw [SettingTree.eq_port_iff hstands hport]
    exact and_iff_right hn

end

/-! ## A file and two variables -/

def sampleFile : SettingsFile :=
  .file "uma.toml" "[server]\nhost = \"007\"\nport = 8443\n"

def sampleVariables : List (String × String) :=
  [("UMA__SERVER__BASE_URL", "https://as.example/uma"), ("UMA__TOKENS__KEY_ID", "007")]

theorem pathOf_sampleVariables : ∀ entry ∈ sampleVariables, ∀ name,
    EnvironmentVariable.setting? entry.1 = some name →
      SettingStep.pathOf name.toList = [.key "server", .key "base_url"] ∨
        SettingStep.pathOf name.toList = [.key "tokens", .key "key_id"] := by
  have hbaseUrl : EnvironmentVariable.setting? "UMA__SERVER__BASE_URL" = some "server.base_url" := by
    decide +kernel
  have hkeyId : EnvironmentVariable.setting? "UMA__TOKENS__KEY_ID" = some "tokens.key_id" := by
    decide +kernel
  simp only [sampleVariables, List.forall_mem_cons, hbaseUrl, hkeyId, Option.some.injEq,
    forall_eq']
  exact ⟨.inl (by decide +kernel), .inr (by decide +kernel), by simp⟩

theorem not_indexes_sampleVariables (table : String) :
    ¬ EnvironmentVariable.Indexes sampleVariables table := by
  rintro ⟨entry, hentry, name, i, path, hsetting, hpath⟩
  rcases pathOf_sampleVariables entry hentry name hsetting with heq | heq <;>
    cases heq.symm.trans hpath

theorem sampleFile_gives {name : String} (hname : name ≠ "base_url")
    (hfound : (tree? sampleFile []).bind (SettingTree.find? ["server", name]) = some x) :
    sampleFile.Gives sampleVariables "server" name x := by
  obtain ⟨tree, htree, hx⟩ := Option.bind_eq_some_iff.mp hfound
  refine ⟨tree, htree, hx, fun entry hentry name' hsetting => ?_⟩
  rcases pathOf_sampleVariables entry hentry name' hsetting with heq | heq <;> rw [heq]
  · exact fun _ hsame => absurd hsame.symm hname
  · exact fun hsame => absurd hsame (by decide)

theorem sampleFile_gives_host :
    sampleFile.Gives sampleVariables "server" "host" (.text "007") := by
  have hword : ((tree? sampleFile []).bind (SettingTree.find? ["server", "host"])).bind
      (fun | .text s => some s | _ => none) = some "007" := by decide +kernel
  obtain ⟨x, hx, htext⟩ := Option.bind_eq_some_iff.mp hword
  refine sampleFile_gives (by decide) (hx.trans ?_)
  cases x <;> cases htext
  rfl

theorem sampleFile_gives_port :
    sampleFile.Gives sampleVariables "server" "port" (.whole 8443) := by
  have hnumber : ((tree? sampleFile []).bind (SettingTree.find? ["server", "port"])).bind
      (fun | .whole n => some n | _ => none) = some 8443 := by decide +kernel
  obtain ⟨x, hx, hwhole⟩ := Option.bind_eq_some_iff.mp hnumber
  refine sampleFile_gives (by decide) (hx.trans ?_)
  cases x <;> cases hwhole
  rfl

/-- The address and the port arrive, as does the host, which is a text of the file; the key id, which
is a number to a variable, does not. -/
theorem sample_loaded_as_given : ∃ settings,
    load sampleFile sampleVariables = .ok settings ∧
      settings.server.baseUrl = some "https://as.example/uma" ∧ settings.server.host = "007" ∧
        settings.server.port = 8443 ∧ settings.tokens.keyId ≠ "007" := by
  have hloads : (load sampleFile sampleVariables).toOption.isSome = true := by decide +kernel
  rcases (loaded_as_given_iff sampleFile sampleVariables).1 with
    ⟨fault, hfault⟩ | ⟨settings, hload, hvariables, hfile, hport⟩
  · rw [hfault] at hloads
    cases hloads
  have hbaseUrl : EnvironmentVariable.Gives sampleVariables "server" "base_url"
      "https://as.example/uma" := ⟨by decide +kernel, not_indexes_sampleVariables _⟩
  have hkeyId : EnvironmentVariable.Gives sampleVariables "tokens" "key_id" "007" :=
    ⟨by decide +kernel, not_indexes_sampleVariables _⟩
  have hslash : '/' ∈ "https://as.example/uma".toList := by decide
  have hvalue : ¬ EnvironmentVariable.IsKept "007" := by
    rw [← EnvironmentVariable.toText?_value_iff]
    decide +kernel
  obtain ⟨hnumber, -⟩ := hport 8443 (.inr ⟨_, sampleFile_gives_port, .inl rfl⟩)
  refine ⟨settings, hload, ?_, ?_, ?_, fun hsame => hvalue ?_⟩
  · exact (hvariables .baseUrl _ hbaseUrl).mpr
      (EnvironmentVariable.isKept_of_not_isNumeric hslash (by decide))
  · exact Option.some.inj (hfile .host _ sampleFile_gives_host)
  · exact Int.ofNat.inj (hnumber.mpr (by decide))
  · exact (hvariables .keyId _ hkeyId).mp (congrArg some hsame)

/-- A number as a key id is written again without its zeros, and of a port that is too great its
last sixteen bits are taken; neither is refused. -/
theorem loaded_otherwise_than_given :
    ((load .unused [("UMA__TOKENS__KEY_ID", "007")]).toOption.map (·.tokens.keyId) = some "7") ∧
      ((load .unused [("UMA__SERVER__PORT", "70000")]).toOption.map (·.server.port) =
        some 4464) := by
  decide +kernel

end Settings

end UserManagedAccess
