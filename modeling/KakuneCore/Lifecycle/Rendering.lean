import KakuneCore.Encoding.Text
import KakuneCore.Lifecycle.Service
import KakuneCore.Relational.Runs

/-!
# Rendered service definitions

A service definition is written for its manager as a command line, a unit or a property list. What a
valid definition is, when two are equivalent, and the three texts.
-/

namespace KakuneCore

open TextSearch

namespace ServiceDefinition

variable (library : DefinitionLibrary)

/-- `ServiceDefinition::new`. -/
def new (manager : ServiceManagerKind) (serviceId executable : String) (arguments : List String)
    (account dataDir : String) : Except LifecycleError ServiceDefinition := do
  let definition : ServiceDefinition :=
    { manager, serviceId, executable, arguments, account, dataDir }
  definition.validate library
  let fingerprint ← definition.fingerprint library
  pure { definition with definitionFingerprint := some fingerprint }

/-- `equivalent_to`. Paths are equal where their components are. -/
def equivalentTo (definition other : ServiceDefinition) : Bool :=
  definition.manager = other.manager &&
    definition.canonicalServiceId = other.canonicalServiceId &&
    pathComponents definition.executable = pathComponents other.executable &&
    definition.arguments = other.arguments &&
    definition.account = other.account &&
    definition.bootPolicy = other.bootPolicy &&
    pathComponents definition.dataDir = pathComponents other.dataDir &&
    definition.definitionFingerprint = other.definitionFingerprint

/-- The executable and the arguments. -/
def command (definition : ServiceDefinition) : List (List Char) :=
  definition.executable.toList :: definition.arguments.map String.toList

end ServiceDefinition

/-! ### Windows -/

/-- `quote_windows_argument`: backslashes are doubled before a quotation mark. -/
def quoteWindowsArgument (argument : List Char) : List Char :=
  if argument ≠ [] ∧ argument.any isWhitespace = false ∧ '"' ∉ argument then argument
  else '"' :: quoteFrom 0 argument
where
  quoteFrom : Nat → List Char → List Char
    | backslashes, [] => List.replicate (backslashes * 2) '\\' ++ ['"']
    | backslashes, c :: rest =>
      if c = '\\' then quoteFrom (backslashes + 1) rest
      else if c = '"' then List.replicate (backslashes * 2 + 1) '\\' ++ '"' :: quoteFrom 0 rest
      else List.replicate backslashes '\\' ++ c :: quoteFrom 0 rest

/-- `render_windows_command_line`. -/
def renderWindowsCommandLine (definition : ServiceDefinition) : List Char :=
  [' '].intercalate (definition.command.map quoteWindowsArgument)

/-! ### systemd -/

/-- The text that `systemd_escape_argument` writes for a character. -/
def systemdEscapeChar (c : Char) : List Char :=
  if 128 ≤ c.toNat then [c]
  else if c = ' ' then ['\\', 'x', '2', '0']
  else if c = '\t' then ['\\', 'x', '0', '9']
  else if c = '\\' then ['\\', '\\']
  else if c = '"' then ['\\', 'x', '2', '2']
  else if c = '$' then ['$', '$']
  else if c = '%' then ['%', '%']
  else if c.toNat < 32 ∨ c.toNat = 127 then
    ['\\', 'x', Nat.digitChar (c.toNat / 16), Nat.digitChar (c.toNat % 16)]
  else [c]

/-- `systemd_escape_argument`. -/
def systemdEscapeArgument (argument : List Char) : List Char := argument.flatMap systemdEscapeChar

/-- The lines of a unit. -/
def unitLines (definition : ServiceDefinition) : List (List Char) :=
  ["[Unit]".toList,
    "Description=Kakune Core local automation runtime".toList,
    "After=network-online.target".toList,
    "Wants=network-online.target".toList,
    [],
    "[Service]".toList,
    "Type=notify".toList,
    "NotifyAccess=main".toList,
    "User=".toList ++ definition.account.toList,
    "ExecStart=".toList ++ [' '].intercalate (definition.command.map systemdEscapeArgument),
    "Restart=on-failure".toList,
    "RestartSec=5".toList,
    "KillMode=mixed".toList,
    "SendSIGKILL=no".toList,
    "TimeoutStartSec=30".toList,
    "TimeoutStopSec=30".toList,
    "NoNewPrivileges=true".toList,
    "PrivateTmp=true".toList,
    "ProtectSystem=strict".toList,
    "ReadWritePaths=".toList ++ systemdEscapeArgument definition.dataDir.toList,
    [],
    "[Install]".toList,
    "WantedBy=multi-user.target".toList]

/-- `render_systemd_unit`. -/
def renderSystemdUnit (definition : ServiceDefinition) : List Char :=
  LineLog.lines '\n' (unitLines definition)

/-! ### launchd -/

/-- `xml_escape`. -/
def xmlEscape (value : List Char) : List Char :=
  let value := replaceAll ['&'] "&amp;".toList value
  let value := replaceAll ['<'] "&lt;".toList value
  let value := replaceAll ['>'] "&gt;".toList value
  let value := replaceAll ['"'] "&quot;".toList value
  replaceAll ['\''] "&apos;".toList value

/-- What a property list has before the label. -/
def plistHead : List Char :=
  ("<?xml version=\"1.0\" encoding=\"UTF-8\"?>\n" ++
    "<!DOCTYPE plist PUBLIC \"-//Apple//DTD PLIST 1.0//EN\" " ++
    "\"http://www.apple.com/DTDs/PropertyList-1.0.dtd\">\n" ++
    "<plist version=\"1.0\"><dict>\n  ").toList

/-- What it has behind the arguments. -/
def plistTail : List Char :=
  ("\n  <key>RunAtLoad</key><true/>\n" ++
    "  <key>KeepAlive</key><true/>\n" ++
    "  <key>ExitTimeOut</key><integer>0</integer>\n" ++
    "  <key>StandardOutPath</key><string>/var/log/kakune-core.log</string>\n" ++
    "  <key>StandardErrorPath</key><string>/var/log/kakune-core.log</string>\n" ++
    "</dict></plist>\n").toList

/-- The tags before the text of a member. -/
def keyTag (key : String) : List Char :=
  "<key>".toList ++ key.toList ++ "</key><string>".toList

/-- The tags before the arguments. -/
def arrayTag : List Char := "<key>ProgramArguments</key><array>".toList

/-- A member with a text. -/
def plistText (key value : String) : List Char :=
  keyTag key ++ xmlEscape value.toList ++ "</string>".toList

/-- `render_launchd_plist`. -/
def renderLaunchdPlist (definition : ServiceDefinition) : List Char :=
  plistHead ++ plistText "Label" definition.serviceId ++ "\n  ".toList ++
    plistText "UserName" definition.account ++ "\n  ".toList ++ arrayTag ++ "\n".toList ++
    definition.command.flatMap (fun argument =>
      "    <string>".toList ++ xmlEscape argument ++ "</string>\n".toList) ++
    "  ".toList ++ "</array>".toList ++ plistTail

/-! ### The text for the manager -/

/-- `render_service_definition`. -/
def renderServiceDefinition (library : DefinitionLibrary) (definition : ServiceDefinition) :
    Except LifecycleError (List Char) := do
  definition.validate library
  match definition.manager with
  | .windowsScm => pure (renderWindowsCommandLine definition)
  | .linuxSystemd => pure (renderSystemdUnit definition)
  | .macosLaunchd => pure (renderLaunchdPlist definition)

/-! ### Valid definitions -/

/-- What validation ensures of the fields. -/
structure ServiceDefinition.ValidFields (definition : ServiceDefinition) : Prop where
  executable : isAbsolutePath definition.executable = true
  dataDir : isAbsolutePath definition.dataDir = true
  normal : (pathComponents definition.executable ++ pathComponents definition.dataDir).any
    (fun component => component ∈ [.curDir, .parentDir]) = false
  serviceId : validateServiceId definition.manager definition.serviceId = .ok ()
  account : blank definition.account = false ∧
    ServiceDefinition.hasControl definition.account = false
  arguments : ∃ path, definition.arguments = ["service", "run", "--data-dir", path] ∧
    ServiceDefinition.hasControl path = false ∧
    pathComponents path = pathComponents definition.dataDir

namespace ServiceDefinition

variable {library : DefinitionLibrary} {definition : ServiceDefinition}

theorem validateFields_eq_ok : definition.validateFields = .ok () ↔ definition.ValidFields := by
  unfold validateFields
  constructor
  · intro h
    split at h
    · cases h
    · next habsolute =>
      split at h
      · cases h
      · next hnormal =>
        obtain ⟨_, hserviceId, h⟩ := except_bind_eq_ok h
        split at h
        · cases h
        · next hcontrol =>
          split at h
          · next path harguments =>
            split at h
            · next hpath =>
              rw [harguments] at hcontrol
              simp only [Bool.or_eq_true, not_or, Bool.not_eq_true, Bool.not_eq_false',
                List.any_cons] at habsolute hnormal hcontrol
              exact ⟨by simpa using habsolute.1, by simpa using habsolute.2, hnormal, hserviceId,
                ⟨hcontrol.1.1, hcontrol.1.2⟩, path, harguments, hcontrol.2.2.2.2.1, hpath⟩
            · cases h
          · cases h
  · rintro ⟨hexecutable, hdataDir, hnormal, hserviceId, haccount, path, harguments, hcontrol, hpath⟩
    have hfixed : (["service", "run", "--data-dir"].any hasControl) = false := by decide
    have hany : definition.arguments.any hasControl = false := by
      rw [harguments, show ["service", "run", "--data-dir", path] =
        ["service", "run", "--data-dir"] ++ [path] from rfl, List.any_append, hfixed]
      simpa using hcontrol
    rw [if_neg (by simp [hexecutable, hdataDir]), if_neg (by rw [hnormal]; decide), hserviceId]
    simp only [haccount.1, haccount.2, hany, Bool.or_self]
    rw [harguments]
    simp [hpath]

/-- The digest of the fields. -/
def digestOf (library : DefinitionLibrary) (definition : ServiceDefinition) : String :=
  library.digest definition.manager definition.canonicalServiceId definition.executable
    definition.arguments definition.account definition.dataDir

/-- The recorded fingerprint plays no part in the validity of the fields. -/
theorem ValidFields.withFingerprint (h : definition.ValidFields) (fingerprint : Option String) :
    { definition with definitionFingerprint := fingerprint }.ValidFields :=
  ⟨h.executable, h.dataDir, h.normal, h.serviceId, h.account, h.arguments⟩

theorem fingerprint_of_validFields (h : definition.ValidFields) :
    definition.fingerprint library = .ok (definition.digestOf library) := by
  rw [fingerprint, validateFields_eq_ok.mpr (h.withFingerprint none)]
  rfl

theorem validate_eq_ok_iff : definition.validate library = .ok () ↔ definition.ValidFields ∧
    (definition.definitionFingerprint = none ∨
      definition.definitionFingerprint = some (definition.digestOf library)) := by
  constructor
  · intro h
    obtain ⟨_, hfields, h⟩ := except_bind_eq_ok h
    have hvalid := validateFields_eq_ok.mp hfields
    refine ⟨hvalid, ?_⟩
    split at h
    · next hnone => exact .inl hnone
    · next recorded hsome =>
      rw [fingerprint_of_validFields hvalid] at h
      obtain ⟨digest, hdigest, h⟩ := except_bind_eq_ok h
      cases hdigest
      split at h
      · next heq => exact .inr (hsome.trans (congrArg some heq))
      · cases h
  · rintro ⟨hvalid, hrecorded⟩
    rw [validate, validateFields_eq_ok.mpr hvalid]
    rcases hrecorded with hnone | hsome
    · rw [hnone]
      rfl
    · rw [hsome]
      dsimp only
      rw [fingerprint_of_validFields hvalid]
      exact if_pos rfl

/-- **What `new` makes**: the definition of the fields, with its fingerprint, where they are
valid. -/
theorem new_eq_ok {manager : ServiceManagerKind} {serviceId executable account dataDir : String}
    {arguments : List String} {made : ServiceDefinition} :
    new library manager serviceId executable arguments account dataDir = .ok made ↔
      ∃ definition : ServiceDefinition, definition =
          { manager, serviceId, executable, arguments, account, dataDir } ∧
        definition.ValidFields ∧
        made = { definition with definitionFingerprint := some (definition.digestOf library) } := by
  constructor
  · intro h
    obtain ⟨_, hvalidate, h⟩ := except_bind_eq_ok h
    have hvalid := (validate_eq_ok_iff.mp hvalidate).1
    rw [fingerprint_of_validFields hvalid] at h
    cases h
    exact ⟨_, rfl, hvalid, rfl⟩
  · rintro ⟨definition, rfl, hvalid, rfl⟩
    have hfingerprint := @fingerprint_of_validFields library _ hvalid
    rw [new, validate_eq_ok_iff.mpr ⟨hvalid, .inl rfl⟩]
    change (fingerprint library _ >>= _) = _
    rw [hfingerprint]
    rfl

/-- What is made is valid. -/
theorem validate_of_new {manager : ServiceManagerKind}
    {serviceId executable account dataDir : String}
    {arguments : List String} {made : ServiceDefinition}
    (h : new library manager serviceId executable arguments account dataDir = .ok made) :
    made.validate library = .ok () := by
  obtain ⟨definition, -, hvalid, rfl⟩ := new_eq_ok.mp h
  exact validate_eq_ok_iff.mpr ⟨hvalid.withFingerprint _, .inr rfl⟩

theorem ValidFields.executable_ne_nil (h : definition.ValidFields) :
    definition.executable.toList ≠ [] := by
  have habsolute := h.executable
  intro hnil
  rw [isAbsolutePath, hnil] at habsolute
  cases habsolute

end ServiceDefinition

/-! ### Paths with the same components -/

theorem rootDir_mem_pathComponents {path : String} :
    PathComponent.rootDir ∈ pathComponents path ↔ isAbsolutePath path = true := by
  unfold pathComponents
  dsimp only
  rw [List.mem_append]
  constructor
  · rintro (hfirst | hrest)
    · split at hfirst
      · assumption
      · split at hfirst <;> simp at hfirst
    · obtain ⟨segment, -, hsegment⟩ := List.mem_map.mp hrest
      split at hsegment <;> cases hsegment
  · intro habsolute
    rw [if_pos habsolute]
    exact .inl List.mem_cons_self

theorem isAbsolutePath_congr {path other : String}
    (h : pathComponents path = pathComponents other) :
    isAbsolutePath path = isAbsolutePath other := by
  rw [Bool.eq_iff_iff, ← rootDir_mem_pathComponents, h, rootDir_mem_pathComponents]

/-- A letter of a path that is no separator and no dot is one of its components. -/
theorem mem_iff_pathComponents {path : String} {c : Char} (hslash : c ≠ '/') (hdot : c ≠ '.') :
    c ∈ path.toList ↔ ∃ name, PathComponent.normal name ∈ pathComponents path ∧ c ∈ name := by
  have hnormal : ∀ name, PathComponent.normal name ∈ pathComponents path ↔
      name ∈ path.toList.splitOn '/' ∧ name ≠ [] ∧ name ≠ ['.'] ∧ name ≠ ['.', '.'] := by
    intro name
    unfold pathComponents
    dsimp only
    rw [List.mem_append, List.mem_map]
    constructor
    · rintro (hfirst | ⟨segment, hsegment, hname⟩)
      · split at hfirst
        · simp at hfirst
        · split at hfirst <;> simp at hfirst
      · rw [List.mem_filter] at hsegment
        split at hname
        · cases hname
        · next hparent =>
          cases hname
          simpa [hparent] using hsegment
    · rintro ⟨hmem, hne, hcur, hparent⟩
      exact .inr ⟨name, List.mem_filter.mpr ⟨hmem, by simp [hne, hcur]⟩, if_neg hparent⟩
  have hsplit := @TextSearch.mem_splitOn_iff _ _ '/' _ path.toList hslash
  rw [hsplit]
  refine exists_congr fun name => ?_
  rw [hnormal]
  constructor
  · rintro ⟨hmem, hc⟩
    refine ⟨⟨hmem, ?_, ?_, ?_⟩, hc⟩
    · rintro rfl
      cases hc
    · rintro rfl
      exact hdot (List.mem_singleton.mp hc)
    · rintro rfl
      simp only [List.mem_cons, List.not_mem_nil, or_false, or_self] at hc
      exact hdot hc
  · rintro ⟨⟨hmem, -⟩, hc⟩
    exact ⟨hmem, hc⟩

end KakuneCore
