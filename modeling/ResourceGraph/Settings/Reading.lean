import ResourceGraph.Settings.Basic
import ResourceGraph.Yaml.Reading

/-!
# Reading settings

Settings are a YAML mapping with any of four fields; what is not given keeps its standard value. A
blank text gives the standard settings. Names and texts are taken as they are written, whatever they
would stand for elsewhere, and a field may be given once.
-/

set_option autoImplicit false

namespace ResourceGraph.Settings

open ResourceGraph.Yaml

/-- A field of the settings. -/
inductive Field where
  | apiVersion
  | kind
  | source
  | debounceMs
  deriving DecidableEq, Repr

namespace Field

/-- The name of a field. -/
def name : Field → String
  | apiVersion => "apiVersion"
  | kind => "kind"
  | source => "source"
  | debounceMs => "debounceMs"

/-- All fields. -/
def all : List Field := [apiVersion, kind, source, debounceMs]

/-- The field with a name. -/
def ofName? (name : List Char) : Option Field := all.find? fun f => f.name.toList == name

end Field

/-- What is found in the place of an item that is not read further. -/
def foundAt : ItemKind → Except Complaint Found
  | .scalar tag text style => scalarFound tag text style
  | .sequenceStart _ => .ok .sequence
  | .mappingStart _ => .ok .mapping
  | _ => .ok .unit

/-- The fault of an item that is not of the expected type. -/
def unexpected (item : Item) (place : Place) (expected : Expected) : ReadFault :=
  let complaint := match foundAt item.kind with
    | .ok found => .wrongType found expected
    | .error complaint => complaint
  .content complaint item.mark place

/-- Reads a scalar as it is written, following aliases. The first argument bounds the recursion: the
target of an alias is no alias. -/
def readText (d : Document) (place : Place) (expected : Expected) :
    Nat → Reading → Except ReadFault ((List Char × Mark) × Reading)
  | 0, _ => .error .endOfStream
  | n + 1, r => do
    let (item, r) ← d.take r
    match item.kind with
    | .aliasOf anchor => d.through anchor r (readText d (.aliased place) expected n)
    | .scalar _ text _ => return ((text, item.mark), r)
    | _ => .error (unexpected item place expected)

/-- Reads a natural number below 2^64, written plain or in a literal tagged as an integer. -/
def readNatural (d : Document) (place : Place) :
    Nat → Reading → Except ReadFault (Nat × Reading)
  | 0, _ => .error .endOfStream
  | n + 1, r => do
    let (item, r) ← d.take r
    let fault := unexpected item place .natural
    match item.kind with
    | .aliasOf anchor => d.through anchor r (readNatural d (.aliased place) n)
    | .scalar tag text style =>
      let admitted := style == .plain ||
        (style == .literal && tag == some (coreTag ['i', 'n', 't']))
      match if admitted then Scalar.natural? (Number.twoTo 64 - 1) text else none with
      | some value => return (value, r)
      | none => .error fault
    | _ => .error fault

/-- Reads the value of a field into the settings. -/
def readField (d : Document) (place : Place) (field : Field) (s : Settings) (r : Reading) :
    Except ReadFault (Settings × Reading) :=
  let text := (readText d place .text 2 r).map fun ((cs, _), r) => (String.ofList cs, r)
  match field with
  | .apiVersion => text.map fun (value, r) => ({ s with apiVersion := value }, r)
  | .kind => text.map fun (value, r) => ({ s with kind := value }, r)
  | .source => text.map fun (value, r) => ({ s with source := value }, r)
  | .debounceMs =>
    (readNatural d place 2 r).map fun (value, r) => ({ s with debounceMs := value }, r)

/-- Reads at most `n` fields of a mapping that starts at a mark, after those already given. -/
def readFields (d : Document) (mark : Mark) :
    Nat → List Field → Settings → Reading → Except ReadFault (Settings × Reading)
  | 0, _, _, _ => .error .endOfStream
  | n + 1, given, s, r => do
    let item ← d.peek r
    match item.kind with
    | .mappingEnd => return (s, { r with rest := r.rest.tail })
    | _ =>
      let ((name, nameMark), r) ← readText d .root .fieldName 2 r
      match Field.ofName? name with
      | none =>
        .error (.content (.unknownField name (Field.all.map Field.name)) nameMark .root)
      | some field =>
        if given.contains field then
          .error (.content (.duplicateField field.name) mark .root)
        else
          let (s, r) ← readField d (Place.root.atValue item.kind) field s r
          readFields d mark n (field :: given) s r

/-- Reads settings from a document. -/
def ofDocument (d : Document) (r : Reading) : Except ReadFault (Settings × Reading) := do
  let (item, r) ← d.take r
  match item.kind with
  | .mappingStart _ => readFields d item.mark (d.items.length + 1) [] standard r
  | .absent => return (standard, r)
  | .scalar _ [] .plain => return (standard, r)
  | _ => .error (unexpected item .root .settings)

/-- Reads settings from a YAML text. -/
def ofYaml (text : String) : Except ReadFault Settings :=
  if (Text.trim text.toList).isEmpty then .ok standard
  else Document.readText ofDocument text.toList

end ResourceGraph.Settings
