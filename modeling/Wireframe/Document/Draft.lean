import Wireframe.Keyed
import Wireframe.Log.Note
import Wireframe.Statement.Grammar

/-! Drafts: what the statements read so far make of a document. A statement is set against the draft
when it is read, and the weights are set against the grid when the text is at its end. -/

namespace Wireframe

structure Draft where
  settings : Settings := {}
  /-- Where the weights of the columns were given last. -/
  colWidthsAt : Location := .start
  /-- Where the weights of the rows were given last. -/
  rowHeightsAt : Location := .start
  components : List Component := []

namespace Draft

/-- What the properties of a component come to before they are walked through. -/
structure Choice where
  kind : Component.Kind
  align : Align
  bg : Option String
  border : Option String

/-- The kind that the entry `type` names. -/
def chooseKind (entries : List (String × Token)) : Except SemanticFault Component.Kind :=
  match entries.lookup "type" with
  | none => .error .missingType
  | some t => match Component.Kind.ofName? t.value with
    | some kind => .ok kind
    | none => .error (.unknownType t.value)

/-- The alignment that the entry `align` names, where there is one. -/
def chooseAlign (entries : List (String × Token)) : Except SemanticFault Align :=
  match entries.lookup "align" with
  | none => .ok .left
  | some t => match Align.ofName? t.value with
    | some align => .ok align
    | none => .error (.unknownAlign t.value)

/-- The range overlaps no component of the draft. -/
def checkOverlap (d : Draft) (range : Range) : Except SemanticFault Unit :=
  match range.firstOverlap? (d.components.map (·.range)) with
  | none => .ok ()
  | some other => .error (.overlap range other)

/-- The range lies in the grid of the draft. -/
def checkBounds (d : Draft) (range : Range) : Except SemanticFault Unit :=
  match Violation.of? range d.settings.grid with
  | none => .ok ()
  | some violation => .error (.outside violation)

/-- The color of an entry, where there is one, under the palette of the draft. -/
def chooseColor (d : Draft) (key : String) (entries : List (String × Token)) :
    Except SemanticFault (Option String) :=
  match entries.lookup key with
  | none => .ok none
  | some t => match Color.resolve d.settings.palette t.value with
    | .ok color => .ok (some color)
    | .error name => .error (.unknownColor name)

/-- The choice of the entries, unless a rule is broken; the order of the rules is that of the
reports. -/
def choose (d : Draft) (range : Range) (entries : List (String × Token)) :
    Except SemanticFault Choice := do
  let kind ← chooseKind entries
  let align ← chooseAlign entries
  d.checkOverlap range
  d.checkBounds range
  let bg ← d.chooseColor "bg" entries
  let border ← d.chooseColor "border" entries
  return ⟨kind, align, bg, border⟩

/-- The properties with the text of an entry. -/
def withText (p : Component.Properties) (key text : String) : Component.Properties :=
  if key = "value" then { p with value := some text }
  else if key = "label" then { p with label := some text }
  else if key = "src" then { p with src := some text }
  else if key = "alt" then { p with alt := some text }
  else p

/-- The properties with the entries that mean something for the kind, and a note for each other. -/
def collect (kind : Component.Kind) (p : Component.Properties) :
    List (String × Token) → Noted (Except Failure Component.Properties)
  | [] => pure (.ok p)
  | (key, t) :: rest =>
    if key ∉ kind.properties then do
      .note (.ignored key kind)
      collect kind p rest
    else if key = "padding" then
      if t.kind = .number then
        collect kind { p with padding := some (Statement.decimal t) } rest
      else pure (.error (.semantic (.padding t) t.location))
    else collect kind (withText p key t.value) rest

/-- The component of a statement on the draft; of entries of one key the last counts. -/
def component (d : Draft) (range : Range) (listed : List (String × Token)) (location : Location) :
    Noted (Except Failure Component) :=
  let entries := Keyed.ofEntries listed
  match d.choose range entries with
  | .error fault => pure (.error (.semantic fault location))
  | .ok c => do
    let p ← collect c.kind { align := c.align.name, bg := c.bg, border := c.border }
      (Keyed.erase "type" entries)
    return p.bind fun p => (Component.ofProperties c.kind range p).mapError .invalid

/-- The fault of a grid that leaves out a component: the first one. -/
def excluded? (d : Draft) (cols rows : Nat) : Option SemanticFault :=
  d.components.findSome? fun c =>
    (Violation.of? c.range (cols, rows)).map (.gridExcludes cols rows c.range)

/-- The draft with weights along an axis. -/
def withWeights (d : Draft) (values : List Float) (location : Location) : Axis → Draft
  | .columns =>
    { d with settings := { d.settings with colWidths := some values }, colWidthsAt := location }
  | .rows =>
    { d with settings := { d.settings with rowHeights := some values }, rowHeightsAt := location }

/-- The draft with the settings changed. -/
def set (d : Draft) (f : Settings → Settings) : Draft := { d with settings := f d.settings }

/-- The draft after a statement. -/
def accept (d : Draft) : Statement → Noted (Except Failure Draft)
  | .ratio width height => pure (.ok (d.set ({ · with ratio := (width, height) })))
  | .grid cols rows location => pure (match d.excluded? cols rows with
    | none => .ok (d.set ({ · with grid := (cols, rows) }))
    | some fault => .error (.semantic fault location))
  | .gap pixels => pure (.ok (d.set ({ · with gap := .real pixels })))
  | .padding pixels => pure (.ok (d.set ({ · with padding := some pixels })))
  | .colors entries => pure (.ok (d.set ({ · with palette := Keyed.ofEntries entries })))
  | .theme name => pure (.ok (d.set ({ · with theme := some name })))
  | .weights axis values location => pure (.ok (d.withWeights values location axis))
  | .component range entries location => do
    let c ← d.component range entries location
    return c.map fun c => { d with components := d.components ++ [c] }

/-- The draft after the statements of the tokens, each of which ends with its line. -/
def extend (d : Draft) (stop : Token) (ts : List Token) : Noted (Except Failure Draft) :=
  if Reader.skipNewlines ts = [] then pure (.ok d)
  else match h : Statement.reader.run stop (Reader.skipNewlines ts) with
    | .error e => pure (.error e)
    | .ok (statement, rest) => do
      match ← d.accept statement with
      | .error e => return .error e
      | .ok d =>
        if (Reader.front stop rest).kind = .newline ∨ rest = [] then
          have : rest.length < ts.length :=
            Nat.lt_of_lt_of_le (Statement.reader.length_lt h) (Reader.length_skipNewlines_le ts)
          extend d stop rest
        else return .error (Reader.missing "end of line" stop rest)
  termination_by ts.length

/-- Weights along an axis are as many as its cells. -/
def checkCount (d : Draft) (axis : Axis) (location : Location) : Except Failure Unit :=
  match d.settings.miscounted axis with
  | none => .ok ()
  | some listed =>
    .error (.semantic (.weightCount axis listed (d.settings.count axis)) location)

/-- The document of a draft at the end of its text. -/
def finish (d : Draft) : Except Failure Document := do
  d.checkCount .columns d.colWidthsAt
  d.checkCount .rows d.rowHeightsAt
  if d.settings.errors = [] then return ⟨d.settings, d.components⟩
  else throw (.invalid d.settings.errors)

end Draft

namespace Document

/-- The document that tokens describe. -/
def ofTokens (ts : Tokens) : Noted (Except Failure Document) := do
  let d ← Draft.extend {} ts.last ts.list
  match d.bind Draft.finish with
  | .error e => return .error e
  | .ok doc =>
    .note (.parsed doc.components.length doc.settings.grid.1 doc.settings.grid.2)
    return .ok doc

/-- The document that a source text describes. -/
def read (source : String) : Noted (Except Failure Document) :=
  match Tokens.read source with
  | .error (fault, location) => pure (.error (.lexical fault location))
  | .ok ts => ofTokens ts

end Document
end Wireframe
