import ExtensionLint.Manifest.ExtensionType
import ExtensionLint.Manifest.Grammar

/-! The grammars for the eight types of extension that come with the checker. -/
namespace ExtensionLint.Grammar

def required (elements : List String) : List ChildRule :=
  elements.map fun e => ⟨⟨none, e⟩, .requiredSingle⟩

def recommended (elements : List String) : List ChildRule :=
  elements.map fun e => ⟨⟨none, e⟩, .recommendedSingle⟩

def optional (elements : List String) : List ChildRule :=
  elements.map fun e => ⟨⟨none, e⟩, .optionalSingle⟩

def multiple (elements : List String) : List ChildRule :=
  elements.map fun e => ⟨⟨none, e⟩, .multiple⟩

/-- A child with rules of its own in a context. -/
def within (context : String) (mode : ChildMode) (element : String) : ChildRule :=
  ⟨⟨some context, element⟩, mode⟩

/-- Who wrote the extension, and under which terms it may be used. -/
def credits : List ChildRule :=
  recommended ["author", "creationDate", "copyright", "license", "authorEmail", "authorUrl"]

/-- Servers that announce new versions. -/
def updates : List (String × ChildRules) := [
  ("updateservers", .declared (multiple ["server"]))]

def languageLists : List (String × ChildRules) := [
  ("languages", .declared (multiple ["language"]))]

def fileLists : List (String × ChildRules) := [
  ("files", .declared (multiple ["filename", "folder", "file"]))]

def mediaLists : List (String × ChildRules) := [
  ("media", .declared (multiple ["filename", "folder"]))]

def databaseScripts : List (String × ChildRules) := [
  ("install", .declared (optional ["sql"])), ("uninstall", .declared (optional ["sql"])),
  ("sql", .declared ([within "sql" .multiple "file"])),
  ("update", .declared (optional ["schemas"])), ("schemas", .declared (multiple ["schemapath"]))]

/-- The fields of a configuration, which are not looked into. -/
def configuration : List (String × ChildRules) := [
  ("config", .declared (multiple ["fields"])), ("fields", .wildcard)]

def languageAttributes : List (String × AttributeRules) := [
  ("languages", .allowed ["folder"]), ("language", .allowed ["tag", "client"])]

def updateAttributes : List (String × AttributeRules) := [
  ("server", .allowed ["type", "priority", "name"])]

def databaseAttributes : List (String × AttributeRules) := [
  ("sql:file", .allowed ["driver", "charset"]), ("schemapath", .allowed ["type"])]

def componentGrammar : Grammar where
  children := updates ++ languageLists ++ fileLists ++ mediaLists ++ databaseScripts ++
      configuration ++ [
    ("extension", .declared (required ["name"] ++ credits ++ required ["version"] ++
      recommended ["description"] ++ optional ["namespace", "element", "scriptfile", "install",
      "uninstall", "update", "files"] ++ multiple ["languages", "media"] ++
      recommended ["administration"] ++ optional ["api", "config", "updateservers", "changelogurl",
      "dlid"])),
    ("administration", .declared (optional ["menu"] ++ optional ["submenu"] ++
      [within "administration" .optionalSingle "files"] ++ multiple ["languages"])),
    ("administration:files", .declared (multiple ["filename", "folder", "file"])),
    ("submenu", .declared (multiple ["menu"])),
    ("api", .declared (optional ["files"] ++ multiple ["languages"]))]
  attributes := languageAttributes ++ updateAttributes ++ databaseAttributes ++ [
    ("extension", .allowed ["type", "version", "method"]), ("namespace", .allowed ["path"]),
    ("files", .allowed ["folder"]), ("administration:files", .allowed ["folder"]),
    ("media", .allowed ["destination", "folder"]),
    ("menu", .allowed ["link", "img", "alt", "option", "act", "controller", "layout", "sub", "task",
      "view"]),
    ("fields", .any), ("dlid", .allowed ["prefix", "suffix"])]

def fileGrammar : Grammar where
  children := updates ++ languageLists ++ databaseScripts ++ [
    ("extension", .declared (required ["name"] ++ credits ++ required ["version"] ++
      recommended ["description"] ++ optional ["scriptfile", "install", "uninstall", "update"] ++
      recommended ["fileset"] ++ multiple ["languages"] ++ optional ["updateservers",
      "changelogurl"])),
    ("fileset", .declared ([within "fileset" .multiple "files"])),
    ("fileset:files", .declared (multiple ["filename", "folder", "file"]))]
  attributes := languageAttributes ++ updateAttributes ++ databaseAttributes ++ [
    ("extension", .allowed ["type", "version", "method"]),
    ("fileset:files", .allowed ["folder", "target"])]

def languageGrammar : Grammar where
  children := updates ++ [
    ("extension", .declared (required ["name", "tag"] ++ credits ++ required ["version"] ++
      recommended ["description", "metadata"] ++ required ["files"] ++ optional ["params",
      "updateservers"])),
    ("metadata", .declared (recommended ["name", "nativeName", "tag", "rtl", "locale",
      "firstDay"] ++ optional ["weekEnd", "calendar"])),
    ("files", .declared (multiple ["filename", "folder"])),
    ("params", .wildcard)]
  attributes := updateAttributes ++ [
    ("extension", .allowed ["type", "version", "method", "client"]),
    ("files", .allowed ["folder"]), ("params", .any)]

def libraryGrammar : Grammar where
  children := updates ++ languageLists ++ fileLists ++ mediaLists ++ [
    ("extension", .declared (required ["name", "libraryname"] ++ credits ++ required ["version"] ++
      recommended ["description"] ++ optional ["namespace", "scriptfile"] ++ required ["files"] ++
      multiple ["languages", "media"] ++ optional ["updateservers", "changelogurl"]))]
  attributes := languageAttributes ++ updateAttributes ++ [
    ("extension", .allowed ["type", "version", "method"]), ("namespace", .allowed ["path"]),
    ("files", .allowed ["folder"]), ("media", .allowed ["destination", "folder"])]

def moduleGrammar : Grammar where
  children := updates ++ languageLists ++ fileLists ++ mediaLists ++ databaseScripts ++
      configuration ++ [
    ("extension", .declared (required ["name"] ++ credits ++ required ["version"] ++
      recommended ["description"] ++ optional ["namespace", "scriptfile", "install", "uninstall",
      "update"] ++ required ["files"] ++ multiple ["languages", "media"] ++ optional ["help",
      "config", "updateservers", "changelogurl", "dlid"]))]
  attributes := languageAttributes ++ updateAttributes ++ databaseAttributes ++ [
    ("extension", .allowed ["type", "version", "method", "client"]),
    ("namespace", .allowed ["path"]), ("files", .allowed ["folder"]),
    ("filename", .allowed ["module"]), ("media", .allowed ["destination", "folder"]),
    ("help", .allowed ["key", "url"]), ("fields", .any), ("dlid", .allowed ["prefix", "suffix"])]

def packageGrammar : Grammar where
  children := updates ++ languageLists ++ [
    ("extension", .declared (required ["name", "packagename"] ++ credits ++ optional ["packager",
      "packagerurl"] ++ required ["version"] ++ recommended ["description"] ++
      optional ["blockChildUninstall", "scriptfile"] ++ required ["files"] ++
      multiple ["languages"] ++ optional ["updateservers", "changelogurl", "dlid"])),
    ("files", .declared ([within "package" .multiple "file"] ++ multiple ["folder"]))]
  attributes := languageAttributes ++ updateAttributes ++ [
    ("extension", .allowed ["type", "version", "method"]), ("files", .allowed ["folder"]),
    ("package:file", .allowed ["type", "id", "client", "group"]),
    ("folder", .allowed ["type", "id", "client", "group"]), ("dlid", .allowed ["prefix", "suffix"])]

def pluginGrammar : Grammar where
  children := updates ++ languageLists ++ fileLists ++ mediaLists ++ databaseScripts ++
      configuration ++ [
    ("extension", .declared (required ["name"] ++ credits ++ required ["version"] ++
      recommended ["description"] ++ optional ["namespace", "scriptfile", "install", "uninstall",
      "update"] ++ required ["files"] ++ multiple ["languages", "media"] ++ optional ["config",
      "updateservers", "changelogurl", "dlid"]))]
  attributes := languageAttributes ++ updateAttributes ++ databaseAttributes ++ [
    ("extension", .allowed ["type", "version", "method", "group"]),
    ("namespace", .allowed ["path"]), ("files", .allowed ["folder"]),
    ("filename", .allowed ["plugin"]), ("folder", .allowed ["plugin"]),
    ("media", .allowed ["destination", "folder"]), ("fields", .any),
    ("dlid", .allowed ["prefix", "suffix"])]

def templateGrammar : Grammar where
  children := updates ++ languageLists ++ fileLists ++ mediaLists ++ configuration ++ [
    ("extension", .declared (required ["name"] ++ credits ++ required ["version"] ++
      recommended ["description"] ++ optional ["inheritable", "parent", "scriptfile"] ++
      required ["files"] ++ optional ["positions"] ++ multiple ["languages", "media"] ++
      optional ["config", "updateservers", "changelogurl", "dlid"])),
    ("positions", .declared (multiple ["position"]))]
  attributes := languageAttributes ++ updateAttributes ++ [
    ("extension", .allowed ["type", "version", "method", "client"]),
    ("files", .allowed ["folder"]), ("media", .allowed ["destination", "folder"]),
    ("fields", .any), ("dlid", .allowed ["prefix", "suffix"])]

def bundled : ExtensionType → Grammar
  | .component => componentGrammar
  | .file => fileGrammar
  | .language => languageGrammar
  | .library => libraryGrammar
  | .module => moduleGrammar
  | .package => packageGrammar
  | .plugin => pluginGrammar
  | .template => templateGrammar

end ExtensionLint.Grammar
