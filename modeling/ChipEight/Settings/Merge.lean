/-
Merging a source onto the default settings.

A source gives settings by name. Its texts are checked for well-formed references
first; then each name has to be a setting's, and each value of its kind, in the
order of the source. A value that is only a place holder keeps the default. Last,
references are replaced, in the order of the settings, and what comes of it has to
be of the right kind again.
-/
import ChipEight.Settings.Basic
import ChipEight.Settings.Reference

set_option autoImplicit false

namespace ChipEight

/-- Settings some of which are still texts with references. -/
structure Draft where
  settings : Settings := {}
  references : List (Setting × List Piece) := []

namespace Draft

/-- The text that stands for a value to be given elsewhere. -/
def placeholder : String := "???"

/-- Takes one value of a source. -/
def add (d : Draft) (name : String) (v : Given) : Except Error Draft := do
  match Setting.ofName? name with
  | none => throw .unknownSetting
  | some s =>
    let own : Except Error Draft :=
      (s.convert v).map fun w => { d with settings := d.settings.put s w }
    match v with
    | .text t =>
      if t = placeholder then return d
      else if Piece.occurIn t.toList then
        return { d with references := (s, ← Piece.ofText t) :: d.references }
      else own
    | _ => own

/-- The pieces of a setting that refers to others. -/
def piecesOf (d : Draft) (s : Setting) : Option (List Piece) :=
  (d.references.find? fun r => r.1 == s).map (·.2)

/-- The value of a setting with its references replaced. A chain of references that is
longer than there are settings leads back to itself. -/
def resolve (d : Draft) : Nat → Setting → Except Error Given
  | 0, _ => .error .circularReference
  | fuel + 1, s =>
    match d.piecesOf s with
    | none => .ok (d.settings.value s)
    | some pieces =>
      let target (name : String) : Except Error Given :=
        match Setting.ofName? name with
        | some t => d.resolve fuel t
        | none => .error .unknownReference
      let plain (p : Piece) : Except Error String :=
        match p with
        | .literal t => .ok t
        | .reference name => (target name).map fun v => v.text?.getD ""
        | .foreign => .error .unsupportedReference
      let value : Except Error Given :=
        match pieces with
        | [.reference name] => target name
        | pieces => (pieces.mapM plain).map fun ts => .text (String.join ts)
      match value with
      | .error e => .error e
      | .ok v =>
        match s.convert v with
        | .error .settingType => .error .referenceType
        | r => r

/-- The settings with every reference replaced. -/
def finish (d : Draft) : Except Error Settings :=
  Setting.all.foldlM
    (fun c s => (d.resolve (Setting.all.length + 1) s).map fun v => c.put s v)
    d.settings

end Draft

namespace Settings

/-- Refuses a text in which a reference is not well formed. -/
def checkReferences (v : Given) : Except Error Unit :=
  v.texts.forM fun t =>
    if Piece.occurIn t.toList then
      (Piece.ofText t).map fun _ => ()
    else .ok ()

/-- The settings of a source on top of the defaults, not yet validated. -/
def merge (source : Given) : Except Error Settings :=
  if source.isEmpty then .ok {}
  else
    match source with
    | .record members => do
      checkReferences source
      let d ← members.foldlM (fun (d : Draft) m => d.add m.1 m.2) {}
      d.finish
    | .list _ => do
      checkReferences source
      throw .settingsList
    | _ => .error .settingsScalar

/-- The settings of a source, if a run can use them. -/
def ofSource (source : Given) : Except Error Settings := do
  (← merge source).validate

end Settings
end ChipEight
