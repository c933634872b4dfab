import Judge.Tools.Option

/-!
# Tools/Names — tools that take paths apart and follow links
-/

namespace Judge.Tools

open Program (onFiles perform)

open Shell (Text ofBytes toBytes)

def withoutSlashes (t : Text) : Text := trimRightWhere (· == '/') t

def lastName (t : Text) : Text :=
  let body := withoutSlashes t
  if body.isEmpty then (if t.isEmpty then [] else ['/'])
  else (body.reverse.takeWhile (· != '/')).reverse

/-- A name in a directory. -/
def childOf (dir name : Text) : Text :=
  (if dir.getLast? == some '/' then dir else dir ++ ['/']) ++ name

def dirName (t : Text) : Text :=
  let body := withoutSlashes t
  let front := trimRightWhere (· != '/') body
  if body.isEmpty then (if t.isEmpty then ['.'] else ['/'])
  else if front.isEmpty then ['.']
  else if (withoutSlashes front).isEmpty then ['/']
  else withoutSlashes front

def basename : Tool := withOptions "a,multiple s,suffix= z,zero" (fun r c => do
  let ending := c.ending "zero"
  let several := c.has "multiple" || c.has "suffix"
  let cut (suffix name : Text) : Text :=
    if suffix.length < name.length && suffix.isSuffixOf name then
      name.take (name.length - suffix.length)
    else name
  match c.rest with
  | [] => r.lacking
  | first :: rest =>
    if several then
      let suffix := c.value "suffix"
      r.finish (unlines ending (c.rest.map fun t => cut suffix (lastName t)))
    else match rest with
      | [] => r.finish (lastName first ++ [ending])
      | [suffix] => r.finish (cut suffix (lastName first) ++ [ending])
      | _ :: extra :: _ => r.burdened extra) true

def dirname : Tool := withOptions "z,zero" fun r c => do
  let ending := c.ending "zero"
  if c.rest.isEmpty then r.lacking else r.finish (unlines ending (c.rest.map dirName))

/-! ## Links -/

/-- What has to be there when a path is resolved. -/
inductive Presence where
  | everything
  | allButLast
  | nothing
deriving DecidableEq, Repr

/-- Resolves the names of a path one by one; `here` is the place so far. -/
def resolveNames (want : Presence) (links : Bool) :
    Nat → Place → List Bytes → Program (Except OsError Place)
  | 0, _, _ => return .error .tooManyLinks
  | fuel + 1, here, names => do
    match names with
    | [] => return .ok here
    | name :: rest =>
      if name == [Path.dot] then resolveNames want links fuel here rest
      else if name == [Path.dot, Path.dot] then resolveNames want links fuel here.dropLast rest
      else
        let next := here ++ [name]
        match ← onFiles (.linkKind (Path.ofNames next)) with
        | .ok .link =>
          if !links then resolveNames want links fuel next rest
          else match ← onFiles (.readLink (Path.ofNames next)) with
            | .error e => return .error e
            | .ok target =>
              let start := if target.isAbsolute then [] else here
              resolveNames want links fuel start (target.steps ++ rest)
        | .ok .dir => resolveNames want links fuel next rest
        | .ok _ =>
          if rest.isEmpty || want = .nothing then resolveNames want links fuel next rest
          else return .error .notDirectory
        | .error e =>
          if want = .nothing || (want = .allButLast && rest.isEmpty && e = .noEntry) then
            resolveNames want links fuel next rest
          else return .error e

def resolvePath (want : Presence) (links : Bool) (t : Text) : Program (Except OsError Path) := do
  let p := path t
  if t.isEmpty then return .error .noEntry
  else
    let cwd : Place ← perform .cwd
    match ← resolveNames want links 5000 (if p.isAbsolute then [] else cwd) p.steps with
    | .error e => return .error e
    | .ok place =>
      if p.endsInSlash && want ≠ .nothing then
        match ← onFiles (.kind (Path.ofNames place)) with
        | .ok .dir => return .ok (Path.ofNames place)
        | .ok _ => return .error .notDirectory
        | .error e =>
          if want = .everything then return .error e else return .ok (Path.ofNames place)
      else return .ok (Path.ofNames place)

def presenceOf (c : Choices) (default : Presence) : Presence :=
  match c.lastOf ["canonicalize-existing", "canonicalize-missing", "canonicalize"] with
  | some "canonicalize-existing" => .everything
  | some "canonicalize-missing" => .nothing
  | _ => default

def readlink : Tool := withOptions
    ("f,canonicalize e,canonicalize-existing m,canonicalize-missing n,no-newline q,quiet " ++
     "s,silent " ++
     "v,verbose z,zero") fun r c => do
  let whole := ["canonicalize", "canonicalize-existing", "canonicalize-missing"].any c.has
  let bare := c.has "no-newline" && c.rest.length = 1
  let ending := if bare then [] else if c.has "zero" then ['\x00'] else ['\n']
  if c.rest.isEmpty then r.lacking
  else
    if c.has "no-newline" && !bare then r.complain "ignoring --no-newline with multiple arguments"
    each c.rest fun t => do
      let found ← if whole then resolvePath (presenceOf c .allButLast) true t
        else onFiles (.readLink (path t))
      match found with
      | .ok p => r.finish (ofBytes p.text ++ ending)
      | .error e =>
        if c.has "verbose" then r.refuseAt t e else return 1

def relativeTo (base place : Place) : Text :=
  let rec shared : List Bytes → List Bytes → Nat
    | a :: s, b :: t => if a == b then shared s t + 1 else 0
    | _, _ => 0
  let n := shared base place
  let names := List.replicate (base.length - n) (utf8 "..") ++ place.drop n
  if names.isEmpty then ['.'] else ofBytes (Path.joinPieces names)

def realpath : Tool := withOptions
    ("e,canonicalize-existing m,canonicalize-missing L,logical P,physical q,quiet s,strip " ++
     ",no-symlinks z,zero ,relative-to= ,relative-base=") fun r c => do
  let ending := if c.has "zero" then ['\x00'] else ['\n']
  let links := !(c.has "strip" || c.has "no-symlinks")
  let want := presenceOf c .allButLast
  let baseOf (name : String) : Program (Option Place) := do
    match c.last? name with
    | none => return none
    | some t =>
      match ← resolvePath want links t with
      | .ok p => return some p.names
      | .error _ => return none
  if c.rest.isEmpty then r.lacking
  else
    let base ← baseOf "relative-to"
    let limit ← baseOf "relative-base"
    each c.rest fun t => do
      match ← resolvePath want links t with
      | .error e => if c.has "quiet" then return 1 else r.refuseAt t e
      | .ok p =>
        let place := p.names
        let inside := match limit with
          | some l => l.isPrefixOf place
          | none => true
        let start := match base with
          | some b => some b
          | none => limit
        match start with
        | some b =>
          r.finish ((if inside then relativeTo b place else ofBytes p.text) ++ ending)
        | none => r.finish (ofBytes p.text ++ ending)

def pwd : Tool := withOptions "L,logical P,physical" fun r c => do
  let cwd : Place ← perform .cwd
  let real := ofBytes (Path.ofNames cwd).text
  let told := (r.env.lookup (utf8 "PWD")).map ofBytes
  unless c.rest.isEmpty do r.complain "ignoring non-option arguments"
  match c.lastOf ["logical", "physical"], told with
  | some "logical", some t =>
    let proper := t.head? == some '/' &&
      (splitWhere (· == '/') t).all fun n => n != ['.'] && n != ['.', '.']
    match ← onFiles (.place (path t)) with
    | .ok place => r.finish ((if proper && place == cwd then t else real) ++ ['\n'])
    | .error _ => r.finish (real ++ ['\n'])
  | _, _ => r.finish (real ++ ['\n'])

end Judge.Tools
