import ResourceGraph.Settings.Reading
import ResourceGraph.Diagnostic.Report
import ResourceGraph.Text.Split

/-!
# Settings files

A directory holds files under relative names, and folders as the names need them. Settings are read
from the file at a path in it, which has to be text in UTF-8.
-/

set_option autoImplicit false

namespace ResourceGraph

/-- A directory: the content of each file by its relative name, in octets. -/
structure Directory where
  files : List (String × ByteArray)

namespace Directory

/-- The parts of a path between slashes. -/
def parts (path : String) : List String := (Text.splitOn '/' path.toList).map String.ofList

/-- Whether a folder is at some place: the directory itself, or a folder that holds a file. -/
def hasFolder (d : Directory) (place : List String) : Bool :=
  place.isEmpty || d.files.any fun file =>
    place.length < (parts file.1).length && (parts file.1).take place.length == place

/-- The place that a path leads to from a folder, one part after the other; there is none if the
path leads out of the directory or through what is no folder. -/
def walk (d : Directory) : List String → List String → Option (List String)
  | place, [] => some place
  | place, part :: rest =>
    if !d.hasFolder place then none
    else if part = "" || part = "." then walk d place rest
    else if part = ".." then
      if place.isEmpty then none else walk d place.dropLast rest
    else walk d (place ++ [part]) rest

/-- The content of the file at a path. -/
def read? (d : Directory) (path : String) : Option ByteArray :=
  if path = "" || path.front? = some '/' then none
  else (d.walk [] (parts path)).bind fun place =>
    (d.files.find? fun file => parts file.1 == place).map Prod.snd

end Directory

/-- Why settings could not be had. -/
inductive SettingsFault where
  /-- No text could be read at a path. -/
  | unreadable (path : String)
  /-- A text holds no settings. -/
  | invalid (fault : Yaml.ReadFault)

namespace SettingsFault

/-- The report on settings that cannot be had. -/
def report : SettingsFault → Report
  | unreadable path =>
    ⟨"Could not read validator configuration from " ++ path, "config::io", none,
      some "Check that the file exists and is readable.", [], false⟩
  | invalid fault =>
    ⟨"Invalid validator configuration: " ++ fault.message, "config::invalid", none,
      some "Expected a YAML mapping with optional apiVersion, kind, source and debounceMs keys.",
      [], false⟩

end SettingsFault

namespace Settings

/-- The settings that a text holds. -/
def ofText (text : String) : Except SettingsFault Settings :=
  (ofYaml text).mapError SettingsFault.invalid

/-- The settings in the file at a path. -/
def ofFile (d : Directory) (path : String) : Except SettingsFault Settings :=
  match (d.read? path).bind String.fromUTF8? with
  | some text => ofText text
  | none => .error (.unreadable path)

end Settings

end ResourceGraph
