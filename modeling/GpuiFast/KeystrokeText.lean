import GpuiFast.Keymap

/-! A keystroke is written as modifiers and a key with a `-` between them. Parsing goes through the
parts between the dashes, and takes the modifiers before a key, one modifier itself if there is no
key, and an empty part as the dash key. It is printed with the spelling of an operating system. -/

namespace GpuiFast

inductive OperatingSystem where
  | mac
  | windows
  | linux
  | freeBsd
  | ios
  | android
  | unknown
  deriving DecidableEq

structure InvalidKeystrokeError where
  keystroke : List Char

inductive ModifierName where
  | ctrl
  | alt
  | shift
  | function
  | secondary
  | platform

def eqIgnoreAsciiCase (a b : List Char) : Bool := a.map Char.toLower = b.map Char.toLower

def modifierNames : List (List Char × ModifierName) :=
  [(['c', 't', 'r', 'l'], .ctrl), (['a', 'l', 't'], .alt), (['s', 'h', 'i', 'f', 't'], .shift),
    (['f', 'n'], .function), (['s', 'e', 'c', 'o', 'n', 'd', 'a', 'r', 'y'], .secondary),
    (['c', 'm', 'd'], .platform), (['s', 'u', 'p', 'e', 'r'], .platform),
    (['w', 'i', 'n'], .platform)]

def modifierNamed (component : List Char) : Option ModifierName :=
  (modifierNames.find? (fun name => eqIgnoreAsciiCase component name.1)).map Prod.snd

namespace Modifiers

def press (os : Option OperatingSystem) (modifiers : Modifiers) : ModifierName → Option Modifiers
  | .ctrl => some { modifiers with control := true }
  | .alt => some { modifiers with alt := true }
  | .shift => some { modifiers with shift := true }
  | .function => some { modifiers with function := true }
  | .secondary => os.map (fun os =>
    if os = .mac then { modifiers with platform := true }
    else { modifiers with control := true })
  | .platform => some { modifiers with platform := true }

def takeKey (modifiers : Modifiers) : Option (List Char × Modifiers) :=
  if modifiers.shift then some (['s', 'h', 'i', 'f', 't'], { modifiers with shift := false })
  else if modifiers.control then
    some (['c', 'o', 'n', 't', 'r', 'o', 'l'], { modifiers with control := false })
  else if modifiers.alt then some (['a', 'l', 't'], { modifiers with alt := false })
  else if modifiers.platform then
    some (['p', 'l', 'a', 't', 'f', 'o', 'r', 'm'], { modifiers with platform := false })
  else if modifiers.function then
    some (['f', 'u', 'n', 'c', 't', 'i', 'o', 'n'], { modifiers with function := false })
  else .none

end Modifiers

namespace Keystroke

/-- What the components so far have given. -/
structure Parsed where
  modifiers : Modifiers
  key : Option (List Char)
  keyChar : Option (List Char)

def isUppercaseKey : List Char → Bool
  | [c] => c.isUpper
  | _ => false

def parseComponents (os : Option OperatingSystem) (endsInDash : Bool) :
    List (List Char) → Parsed → Option Parsed
  | [], parsed => some parsed
  | [component], parsed =>
    match modifierNamed component with
    | some name => (parsed.modifiers.press os name).map (fun modifiers =>
      { parsed with modifiers := modifiers })
    | none => some { parsed with
      modifiers := { parsed.modifiers with
        shift := parsed.modifiers.shift || isUppercaseKey component }
      key := some (component.map Char.toLower) }
  | component :: next :: rest, parsed =>
    match modifierNamed component with
    | some name => (parsed.modifiers.press os name).bind (fun modifiers =>
      parseComponents os endsInDash (next :: rest) { parsed with modifiers := modifiers })
    | none =>
      if next = [] ∧ endsInDash = true then some { parsed with key := some ['-'] }
      else
        match next with
        | '>' :: c :: keyChar => parseComponents os endsInDash rest
            { parsed with key := some component, keyChar := some (c :: keyChar) }
        | _ => none

def ofParsed (parsed : Parsed) : Option Keystroke :=
  match parsed.key with
  | some key => some ⟨parsed.modifiers, .ofList key, parsed.keyChar.map .ofList⟩
  | none => parsed.modifiers.takeKey.map (fun taken =>
    ⟨taken.2, .ofList taken.1, parsed.keyChar.map .ofList⟩)

def parseInternal (source : List Char) (os : Option OperatingSystem) :
    Except InvalidKeystrokeError Keystroke :=
  match (parseComponents os (source.getLast? = some '-') (source.splitOn '-')
    ⟨.none, none, none⟩).bind ofParsed with
  | some keystroke => .ok keystroke
  | none => .error ⟨source⟩

def parseWithOs (source : List Char) (os : OperatingSystem) :
    Except InvalidKeystrokeError Keystroke :=
  parseInternal source (some os)

def platformName : OperatingSystem → List Char
  | .windows => ['w', 'i', 'n']
  | .linux | .freeBsd | .android | .unknown => ['s', 'u', 'p', 'e', 'r']
  | .mac | .ios => ['c', 'm', 'd']

def unparse (keystroke : Keystroke) (os : OperatingSystem) : List Char :=
  (if keystroke.modifiers.function then ['f', 'n', '-'] else []) ++
    (if keystroke.modifiers.control then ['c', 't', 'r', 'l', '-'] else []) ++
    (if keystroke.modifiers.alt then ['a', 'l', 't', '-'] else []) ++
    (if keystroke.modifiers.platform then platformName os ++ ['-'] else []) ++
    (if keystroke.modifiers.shift then ['s', 'h', 'i', 'f', 't', '-'] else []) ++
    keystroke.key.toList

end Keystroke

end GpuiFast
