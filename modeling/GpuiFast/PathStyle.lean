import Mathlib.Data.List.Basic
import Mathlib.Data.List.TakeWhile

/-! Paths as the bytes of their text, taken apart into components as Unix and Windows do: the prefix, the
root and the body between separators. Joining pushes a path onto a base; a path with a prefix
replaces the base, and a verbatim base is put together again from its components. -/

namespace GpuiFast

abbrev PathBytes := List UInt8

namespace PathBytes

def slash : UInt8 := 47
def backslash : UInt8 := 92
def dot : UInt8 := 46
def colon : UInt8 := 58
def question : UInt8 := 63

/-- `UNC\`. -/
def uncBytes : PathBytes := [85, 78, 67, backslash]

end PathBytes

open PathBytes

inductive PathStyle where
  | unix
  | windows
  deriving DecidableEq

inductive PathPrefix where
  | verbatim (name : PathBytes)
  | verbatimUnc (server share : PathBytes)
  | verbatimDisk (drive : UInt8)
  | deviceNs (name : PathBytes)
  | unc (server share : PathBytes)
  | disk (drive : UInt8)
  deriving DecidableEq

namespace PathPrefix

def shareLen (server share : PathBytes) : ℕ :=
  server.length + if share.length > 0 then 1 + share.length else 0

def len : PathPrefix → ℕ
  | verbatim name => 4 + name.length
  | verbatimUnc server share => 8 + shareLen server share
  | verbatimDisk _ => 6
  | deviceNs name => 4 + name.length
  | unc server share => 2 + shareLen server share
  | disk _ => 2

def isDrive : PathPrefix → Bool
  | disk _ => true
  | _ => false

def hasImplicitRoot (p : PathPrefix) : Bool := !p.isDrive

def isVerbatim : PathPrefix → Bool
  | verbatim _ | verbatimUnc .. | verbatimDisk _ => true
  | _ => false

end PathPrefix

/-- A component of a path. Prefixes are compared by what they were parsed as, so that their text is
left to the path. -/
inductive PathComponent where
  | pathPrefix (parsed : PathPrefix)
  | rootDir
  | curDir
  | parentDir
  | normal (name : PathBytes)
  deriving DecidableEq

namespace WindowsPrefix

def isSepByte (b : UInt8) : Bool := b = backslash || b = slash

def isVerbatimSep (b : UInt8) : Bool := b = backslash

def getPrefix (path : PathBytes) : PathBytes :=
  (path.take 8).map (fun b => if b = slash then backslash else b)

/-- Whether `pattern` is at `index` in the start of a path. -/
def startsWithAt (path : PathBytes) (index : ℕ) (pattern : PathBytes) : Bool :=
  pattern.isPrefixOf ((getPrefix path).drop index)

def parseNextComponent (path : PathBytes) (verbatim : Bool) : PathBytes × PathBytes :=
  let separator := if verbatim then isVerbatimSep else isSepByte
  (path.takeWhile (fun b => !separator b), (path.dropWhile (fun b => !separator b)).drop 1)

def isAsciiAlphabetic (b : UInt8) : Bool := (65 ≤ b && b ≤ 90) || (97 ≤ b && b ≤ 122)

def toAsciiUppercase (b : UInt8) : UInt8 := if 97 ≤ b && b ≤ 122 then b - 32 else b

/-- A drive, as in `C:` and `C:\whatever`. -/
def parseDrive : PathBytes → Option UInt8
  | drive :: second :: _ =>
    if second = colon ∧ isAsciiAlphabetic drive then some (toAsciiUppercase drive) else none
  | _ => none

/-- A drive and nothing else, as in `C:`. -/
def parseDriveExact (path : PathBytes) : Option UInt8 :=
  if path[2]?.all isVerbatimSep then parseDrive path else none

def parsePrefix (path : PathBytes) : Option PathPrefix :=
  if startsWithAt path 0 [backslash, backslash] then
    -- the meaning of verbatim paths can change when they use a different separator
    if startsWithAt path 2 [question, backslash] && !(path.take 4).contains slash then
      if startsWithAt path 4 uncBytes then
        let (server, path) := parseNextComponent (path.drop 8) true
        let (share, _) := parseNextComponent path true
        some (.verbatimUnc server share)
      else
        match parseDriveExact (path.drop 4) with
        | some drive => some (.verbatimDisk drive)
        | none => some (.verbatim (parseNextComponent (path.drop 4) true).1)
    else if startsWithAt path 2 [dot, backslash] then
      some (.deviceNs (parseNextComponent (path.drop 4) false).1)
    else
      let (server, path) := parseNextComponent (path.drop 2) false
      let (share, _) := parseNextComponent path false
      if !server.isEmpty && !share.isEmpty then some (.unc server share) else none
  else (parseDrive path).map .disk

end WindowsPrefix

namespace PathStyle

def parsePrefix : PathStyle → PathBytes → Option PathPrefix
  | unix, _ => none
  | windows, path => WindowsPrefix.parsePrefix path

def isSepByte : PathStyle → UInt8 → Bool
  | unix, b => b = slash
  | windows, b => WindowsPrefix.isSepByte b

def isVerbatimSep : PathStyle → UInt8 → Bool
  | unix, b => isSepByte unix b
  | windows, b => WindowsPrefix.isVerbatimSep b

def primarySeparator : PathStyle → UInt8
  | unix => slash
  | windows => backslash

def prefixLen (style : PathStyle) (path : PathBytes) : ℕ :=
  ((style.parsePrefix path).map PathPrefix.len).getD 0

def prefixVerbatim (style : PathStyle) (path : PathBytes) : Bool :=
  (style.parsePrefix path).any PathPrefix.isVerbatim

def hasPhysicalRoot (style : PathStyle) (path : PathBytes) : Bool :=
  (path.drop (style.prefixLen path)).head?.any style.isSepByte

def hasRoot (style : PathStyle) (path : PathBytes) : Bool :=
  style.hasPhysicalRoot path || (style.parsePrefix path).any PathPrefix.hasImplicitRoot

def isAbsolute (style : PathStyle) (path : PathBytes) : Bool :=
  match style with
  | unix => style.hasRoot path
  | windows => style.hasRoot path && (style.parsePrefix path).isSome

def separates (style : PathStyle) (verbatim : Bool) (b : UInt8) : Bool :=
  if verbatim then style.isVerbatimSep b else style.isSepByte b

/-- One component between separators; `.` is normalized away, but in verbatim paths. -/
def parseSingleComponent (verbatim : Bool) (component : PathBytes) : Option PathComponent :=
  if component = [dot] then if verbatim then some .curDir else none
  else if component = [dot, dot] then some .parentDir
  else if component = [] then none
  else some (.normal component)

def bodyComponents (style : PathStyle) (verbatim : Bool) (body : PathBytes) : List PathComponent :=
  (body.splitOnP (style.separates verbatim)).filterMap (parseSingleComponent verbatim)

/-- Whether a path without prefix and root begins with `.`. -/
def includeCurDir (style : PathStyle) (path : PathBytes) : Bool :=
  match path with
  | [b] => b = dot
  | b :: c :: _ => b = dot && style.isSepByte c
  | [] => false

/-- The root or `.` a path starts from, and the body. -/
def startComponents (style : PathStyle) (path : PathBytes) : List PathComponent :=
  let verbatim := style.prefixVerbatim path
  let rest := path.drop (style.prefixLen path)
  if style.hasPhysicalRoot path then .rootDir :: style.bodyComponents verbatim (rest.drop 1)
  else
    match style.parsePrefix path with
    | some p =>
      if p.hasImplicitRoot && !p.isVerbatim then .rootDir :: style.bodyComponents verbatim rest
      else style.bodyComponents verbatim rest
    | none =>
      if style.includeCurDir rest then .curDir :: style.bodyComponents verbatim (rest.drop 1)
      else style.bodyComponents verbatim rest

def components (style : PathStyle) (path : PathBytes) : List PathComponent :=
  ((style.parsePrefix path).map .pathPrefix).toList ++ style.startComponents path

/-- Adds a component to those of a verbatim path, without `.` and `..`. -/
def pushComponent (buffer : List PathComponent) : PathComponent → List PathComponent
  | .rootDir => buffer.take 1 ++ [.rootDir]
  | .curDir => buffer
  | .parentDir =>
    match buffer.getLast? with
    | some (.normal _) => buffer.dropLast
    | _ => buffer
  | component => buffer ++ [component]

def asOsStr (style : PathStyle) (raw : PathBytes) : PathComponent → PathBytes
  | .pathPrefix _ => raw
  | .rootDir => [style.primarySeparator]
  | .curDir => [dot]
  | .parentDir => [dot, dot]
  | .normal name => name

def needsSeparator : PathComponent → Bool
  | .rootDir => false
  | .pathPrefix p => !p.isDrive && p.len > 0
  | _ => true

def renderComponents (style : PathStyle) (raw : PathBytes) : (needSep : Bool) →
    List PathComponent → PathBytes
  | _, [] => []
  | needSep, component :: components =>
    (if needSep && component ≠ .rootDir then [style.primarySeparator] else []) ++
      style.asOsStr raw component ++
      renderComponents style raw (needsSeparator component) components

def styledPush (style : PathStyle) (buffer path : PathBytes) : PathBytes :=
  let needSep := buffer.getLast?.any (fun b => !style.isSepByte b)
  -- in the special case of `C:` on Windows, do *not* add a separator
  let needSep :=
    if style.prefixLen buffer > 0 ∧ style.prefixLen buffer = buffer.length ∧
      (style.parsePrefix buffer).any PathPrefix.isDrive then false else needSep
  if style.isAbsolute path || (style.parsePrefix path).isSome then path
  else if style.prefixVerbatim buffer && !path.isEmpty then
    style.renderComponents (buffer.take (style.prefixLen buffer)) false
      ((style.components path).foldl pushComponent (style.components buffer))
  else if style.hasRoot path then
    (match (style.components buffer).head? with
      | some (.pathPrefix _) => buffer.take (style.prefixLen buffer)
      | _ => []) ++ path
  else if needSep then buffer ++ [style.primarySeparator] ++ path
  else buffer ++ path

def join (style : PathStyle) (left right : PathBytes) : PathBytes := style.styledPush left right

end PathStyle

inductive RelPathError where
  | absolutePathNotAllowed (path : PathBytes)
  | pathIsNotRelative (path : PathBytes)
  deriving DecidableEq

namespace RelPath

/-- The components between slashes; the last one is left out if it is empty. -/
def components (path : PathBytes) : List PathBytes :=
  let parts := path.splitOnP (fun b => b = slash)
  if parts.getLast? = some [] then parts.dropLast else parts

/-- Removes the last component, if there is one. -/
def pop (path : PathBytes) : Option PathBytes :=
  if slash ∈ path then some ((path.reverse.dropWhile (· ≠ slash)).drop 1).reverse
  else if !path.isEmpty then some []
  else none

def push (path component : PathBytes) : PathBytes :=
  if component.isEmpty then path
  else if path.isEmpty then component
  else path ++ [slash] ++ component

/-- Removes `./` from the start, as often as it is there. -/
def stripStart (style : PathStyle) : PathBytes → PathBytes
  | b :: c :: path =>
    if b = dot ∧ style.isSepByte c then stripStart style path else b :: c :: path
  | path => path

def stripEnd (style : PathStyle) (path : PathBytes) : PathBytes :=
  match path with
  | [] => []
  | b :: rest => b :: (rest.reverse.dropWhile style.isSepByte).reverse

def normalizeStep (normalized : PathBytes) (component : PathBytes) : Option PathBytes :=
  if component = [] ∨ component = [dot] then some normalized
  else if component = [dot, dot] then pop normalized
  else some (push normalized component)

def new (style : PathStyle) (path : PathBytes) : Except RelPathError PathBytes :=
  let path := stripEnd style (stripStart style path)
  if style.hasRoot path then .error (.absolutePathNotAllowed path)
  else
    let result :=
      if style = .windows then path.map (fun b => if b = backslash then slash else b) else path
    if (components result).any (fun c => c = [] ∨ c = [dot] ∨ c = [dot, dot]) then
      match (components result).foldlM normalizeStep [] with
      | none => .error (.pathIsNotRelative result)
      | some normalized => .ok normalized
    else .ok result

end RelPath

end GpuiFast
