import Judge.Number.Directive
import Judge.Tools.Collation
import Judge.Tools.Regex

/-!
# Tools/Numbers — tools that calculate

Numbers in a row, prime factors, and expressions.
-/

namespace Judge.Tools

open Shell (Text ofBytes toBytes)

/-! ## Numbers in a row -/

/-- A number as it is written: `digits / 10 ^ places`, or without an end. -/
structure Written where
  digits : Int
  places : Nat
  shown : Option Nat
  width : Nat
  infinite : Bool := false

def Written.read? (t : Text) : Option Written :=
  let body := t.dropWhile Scan.isSpace
  let (negative, unsigned) := Scan.takeSign body
  let sign : Int := if negative then -1 else 1
  let width := if body.head? == some '+' then body.length - 1 else body.length
  match unsigned with
  | '0' :: x :: ds =>
    if x == 'x' || x == 'X' then
      if ds.isEmpty || !ds.all (Scan.isDigitIn 16) then none
      else some ⟨sign * Scan.readDigits 16 ds, 0, none, width, false⟩
    else decimal sign width unsigned
  | _ =>
    let word := String.ofList (unsigned.map Char.toLower)
    if word == "inf" || word == "infinity" then some ⟨sign, 0, none, width, true⟩
    else decimal sign width unsigned
where
  decimal (sign : Int) (width : Nat) (unsigned : Text) : Option Written :=
    let (whole, fraction, after) := Scan.takeFraction 10 unsigned
    if whole.isEmpty && fraction.isEmpty then none
    else
      let (exponent, rest) := Scan.takeExponent 'e' after
      if !rest.isEmpty then none
      else
        let n : Int := sign * Scan.readDigits 10 (whole ++ fraction)
        let e : Int := (exponent.bind int?).getD 0
        let width := if whole.isEmpty then width + 1 else width
        if (fraction.length : Int) ≤ e then
          some ⟨n * 10 ^ (e - fraction.length).toNat, 0, some 0, width, false⟩
        else
          let places := ((fraction.length : Int) - e).toNat
          some ⟨n, places, some places, width, false⟩

/-- How the numbers of a row are printed: text, a directive, and text. -/
structure RowFormat where
  before : Text
  shape : Directive.Shape
  letter : Char
  after : Text

/-- The text up to the first percent sign that means something, and from there on. -/
def upToDirective : Nat → Text → Text → Text × Text
  | 0, t, done => (done.reverse, t)
  | fuel + 1, t, done =>
    match t with
    | [] => (done.reverse, [])
    | '%' :: '%' :: rest => upToDirective fuel rest ('%' :: done)
    | '%' :: _ => (done.reverse, t)
    | c :: rest => upToDirective fuel rest (c :: done)

def RowFormat.read (t : Text) : Except String RowFormat := do
  let (before, rest) := upToDirective (t.length + 1) t []
  match rest with
  | [] => throw ("format " ++ quoted t ++ " has no % directive")
  | _ :: rest =>
    let rest := rest.filter (· != '\'')
    let (shape, rest) := Directive.readFlags rest {}
    let width := rest.takeWhile Char.isDigit
    let rest := rest.drop width.length
    let shape := { shape with width := Scan.readDigits 10 width }
    let (shape, rest) := match rest with
      | '.' :: more =>
        let ds := more.takeWhile Char.isDigit
        ({ shape with precision := some (Scan.readDigits 10 ds) }, more.drop ds.length)
      | _ => (shape, rest)
    match rest with
    | [] => throw ("format " ++ quoted t ++ " ends in %")
    | letter :: rest =>
      if !"aAeEfFgG".toList.contains letter then
        throw ("format " ++ quoted t ++ " has unknown %" ++ str [letter] ++ " directive")
      let (after, more) := upToDirective (rest.length + 1) rest []
      if !more.isEmpty then throw ("format " ++ quoted t ++ " has too many % directives")
      return ⟨before, shape, letter, after⟩

def RowFormat.apply (f : RowFormat) (places : Nat) (n : Int) : Text :=
  let den := 10 ^ places
  f.before ++
    (if f.letter.toLower == 'a' then
      Directive.floating f.shape f.letter (Binary64.ofRatio (decide (n < 0)) n.natAbs den)
    else Directive.ratio f.shape f.letter (decide (n < 0)) n.natAbs den) ++ f.after

/-- A row of numbers in units of `10 ^ -unit`. -/
structure Row where
  format : RowFormat
  unit : Nat
  step : Int
  last : Option Int
  separator : Text

namespace Row

def isPast (w : Row) (n : Int) : Bool :=
  match w.last with
  | some last => if 0 < w.step then decide (last < n) else decide (n < last)
  | none => false

/-- At most so many numbers from `n` on, backwards, and the number after them. -/
def some : Row → Nat → Int → List Text → List Text × Int
  | _, 0, n, done => (done, n)
  | w, fuel + 1, n, done =>
    if w.isPast n then (done, n)
    else Row.some w fuel (n + w.step) (w.format.apply w.unit n :: done)

def print (w : Row) (r : Request) : Nat → Int → Program Nat
  | 0, _ => return 0
  | fuel + 1, n => do
    let (texts, next) := Row.some w 1000 n []
    let ends := w.isPast next
    let body := w.separator.intercalate texts.reverse
    if texts.isEmpty then return 0
    else if ← r.print (toBytes (body ++ if ends then ['\n'] else w.separator)) then
      if ends then return 0 else w.print r fuel next
    else return 1

end Row

/-- The arguments of `seq` as options and numbers: negative numbers are no options.  `wanting`
tells that the option before wants a value. -/
def seqArguments (wanting : Bool) : List Text → List Text × List Text
  | [] => ([], [])
  | t :: rest =>
    let asOption (wanting : Bool) : List Text × List Text :=
      let (os, ns) := seqArguments wanting rest
      (t :: os, ns)
    let wants := ["-s", "-f", "--separator", "--format"].contains (String.ofList t)
    if wanting then asOption false
    else match t with
      | ['-', '-'] => ([], rest)
      | '-' :: c :: _ => if c.isDigit || c == '.' then ([], t :: rest) else asOption wants
      | _ => ([], t :: rest)

def defaultFormat (wide : Bool) (first step last : Written) : RowFormat :=
  match first.shown, step.shown, last.shown with
  | some f, some s, some l =>
    let places := max f s
    let firstWidth := first.width + (places - f) + (if f = 0 && places ≠ 0 then 1 else 0)
    let lastWidth := last.width + places - l + (if l = 0 && places ≠ 0 then 1 else 0) -
      (if l ≠ 0 && places = 0 then 1 else 0)
    let width := if wide then max firstWidth lastWidth else 0
    ⟨[], { zero := wide, width, precision := some places }, 'f', []⟩
  | _, _, _ => ⟨[], {}, 'g', []⟩

def seq : Tool := fun r =>
  let (options, numbers) := seqArguments false r.args
  withOptions "f,format= s,separator= w,equal-width" (fun r c => do
    let one : Written := ⟨1, 0, some 0, 1, false⟩
    if numbers.isEmpty then r.lacking
    else match numbers.drop 3 with
      | extra :: _ => r.burdened extra
      | [] =>
        let wrong := numbers.find? fun t => (Written.read? t).isNone
        match wrong, numbers.filterMap Written.read? with
        | some t, _ =>
          if (t.map Char.toLower) == "nan".toList then
            r.misused ("invalid 'not-a-number' argument: " ++ quoted t)
          else r.misused ("invalid floating point argument: " ++ quoted t)
        | none, values =>
          let (first, step, last) := match values with
            | [last] => (one, one, last)
            | [first, last] => (first, one, last)
            | [first, step, last] => (first, step, last)
            | _ => (one, one, one)
          if step.digits = 0 then
            r.misused ("invalid Zero increment value: " ++ quoted (numbers.getD 1 []))
          else if c.has "equal-width" && c.has "format" then
            r.misused "format string may not be specified when printing equal width strings"
          else
            let format := match c.last? "format" with
              | some t => RowFormat.read t
              | none => .ok (defaultFormat (c.has "equal-width") first step last)
            match format with
            | .error e => r.fail e
            | .ok format =>
              let unit := max (max first.places step.places) last.places
              let scaled (w : Written) : Int := w.digits * 10 ^ (unit - w.places)
              let endless := last.infinite && (0 < last.digits) == (0 < step.digits)
              if last.infinite && !endless then return 0
              else
                let row : Row :=
                  { format, unit, step := scaled step
                    last := if endless then none else some (scaled last)
                    separator := (c.last? "separator").getD ['\n'] }
                row.print r patience (scaled first))
    true 1 { r with args := options }

/-! ## Prime factors -/

def factorsFrom : Nat → Nat → Nat → List Nat → List Nat
  | 0, _, n, done => (if n ≤ 1 then done else n :: done).reverse
  | fuel + 1, p, n, done =>
    if n ≤ 1 then done.reverse
    else if n < p * p then (n :: done).reverse
    else if n % p = 0 then factorsFrom fuel p (n / p) (p :: done)
    else factorsFrom fuel (if p = 2 then 3 else p + 2) n done

def factor : Tool := withOptions "h,exponents" fun r c => do
  let words ← if c.rest.isEmpty then do
      match ← Program.drain 0 with
      | .ok data => pure (runsWhere Scan.isSpace (ofBytes data))
      | .error _ => pure []
    else pure c.rest
  each words fun t => do
    let body := t.dropWhile (· == ' ')
    let body := if body.head? == some '+' then body.tail else body
    match nat? body with
    | none => r.fail (quoted t ++ " is not a valid positive integer")
    | some n =>
      let fs := factorsFrom (n.log2 + 2 ^ 24) 2 n []
      let shown := if c.has "exponents" then
          fs.eraseDups.map fun p =>
            let k := (fs.filter (· == p)).length
            if k = 1 then toString p else toString p ++ "^" ++ toString k
        else fs.map toString
      r.finish ((toString n ++ ":" ++ String.join (shown.map (" " ++ ·)) ++ "\n").toList)

/-! ## Expressions -/

def isInteger (t : Text) : Bool := match t with
  | '-' :: ds | ds => (nat? ds).isSome

def isNothing (t : Text) : Bool :=
  t.isEmpty || match t with
    | '-' :: ds => !ds.isEmpty && ds.all (· == '0')
    | ds => ds.all (· == '0')

def truth (b : Bool) : Text := if b then ['1'] else ['0']

def intText (n : Int) : Text := (toString n).toList

def expressionLevels : List (List String) :=
  [["|"], ["&"], ["<", "<=", "=", "==", "!=", ">=", ">"], ["+", "-"], ["*", "/", "%"], [":"]]

def matchValue (t pattern : Text) : Except String Text :=
  match Regex.read pattern with
  | .error f => .error f.message
  | .ok (regex, groups) => .ok <| match regex.longest t with
    | some s => if groups = 0 then (toString s.taken.length).toList else (s.groups.lookup 1).getD []
    | none => if groups = 0 then ['0'] else []

/-- The value of an operation; a comparison is one of numbers if both sides are numbers. -/
def operate (a : Text) (op : String) (b : Text) : Except String Text :=
  let compared : Ordering :=
    if isInteger a && isInteger b then compare ((int? a).getD 0) ((int? b).getD 0)
    else compareTexts a b
  let numbers (f : Int → Int → Except String Int) : Except String Text := do
    if !isInteger a || !isInteger b then throw "non-integer argument"
    return intText (← f ((int? a).getD 0) ((int? b).getD 0))
  match op with
  | "|" => .ok (if !isNothing a then a else if !isNothing b then b else ['0'])
  | "&" => .ok (if isNothing a || isNothing b then ['0'] else a)
  | "<" => .ok (truth compared.isLT)
  | "<=" => .ok (truth compared.isLE)
  | "=" | "==" => .ok (truth compared.isEq)
  | "!=" => .ok (truth compared.isNe)
  | ">=" => .ok (truth compared.isGE)
  | ">" => .ok (truth compared.isGT)
  | ":" => matchValue a b
  | "+" => numbers fun m n => .ok (m + n)
  | "-" => numbers fun m n => .ok (m - n)
  | "*" => numbers fun m n => .ok (m * n)
  | "/" => numbers fun m n => if n = 0 then .error "division by zero" else .ok (Int.tdiv m n)
  | _ => numbers fun m n => if n = 0 then .error "division by zero" else .ok (Int.tmod m n)

/-- The arguments of an expression: the one that was read last, and those that are left. -/
structure Arguments where
  before : Text
  rest : List Text

def Arguments.next (a : Arguments) : Except String (Text × Arguments) :=
  match a.rest with
  | t :: rest => .ok (t, ⟨t, rest⟩)
  | [] => .error ("syntax error: missing argument after " ++ quoted a.before)

def placeOfAny (chars t : Text) : Nat :=
  match t.findIdx? chars.contains with
  | some i => i + 1
  | none => 0

def substring (t place length : Text) : Text :=
  match int? place, int? length with
  | some p, some n => if p < 1 || n < 1 then [] else (t.drop (p.toNat - 1)).take n.toNat
  | _, _ => []

mutual

/-- The value of an expression whose operators are on the given levels, and the arguments left.
Without `real`, only its form matters. -/
def expression : Nat → Bool → List (List String) → Arguments → Except String (Text × Arguments)
  | 0, _, _, _ => .error "syntax error"
  | fuel + 1, real, levels, args =>
    match levels with
    | [] => atom fuel real args
    | ops :: higher => do
      let (v, args) ← expression fuel real higher args
      expressionAfter fuel real ops higher v args

/-- Goes on after the value `v` with operators of one level. -/
def expressionAfter : Nat → Bool → List String → List (List String) → Text → Arguments →
    Except String (Text × Arguments)
  | 0, _, _, _, _, _ => .error "syntax error"
  | fuel + 1, real, ops, higher, v, args =>
    match args.rest with
    | op :: rest =>
      let word := String.ofList op
      if ops.contains word then do
        let needed := match word with
          | "|" => isNothing v
          | "&" => !isNothing v
          | _ => true
        let (w, args) ← expression fuel (real && needed) higher ⟨op, rest⟩
        let value ← if real && needed then operate v word w
          else if word == "&" then pure ['0'] else pure v
        expressionAfter fuel real ops higher value args
      else .ok (v, args)
    | [] => .ok (v, args)

/-- A value, one between parentheses, or one of a named operation. -/
def atom : Nat → Bool → Arguments → Except String (Text × Arguments)
  | 0, _, _ => .error "syntax error"
  | fuel + 1, real, args => do
    let (t, after) ← args.next
    match String.ofList t with
    | "+" => after.next
    | "length" => do
      let (v, args) ← atom fuel real after
      return ((toString v.length).toList, args)
    | "match" => do
      let (v, args) ← atom fuel real after
      let (p, args) ← atom fuel real args
      return (← if real then matchValue v p else pure [], args)
    | "index" => do
      let (v, args) ← atom fuel real after
      let (cs, args) ← atom fuel real args
      return ((toString (placeOfAny cs v)).toList, args)
    | "substr" => do
      let (v, args) ← atom fuel real after
      let (p, args) ← atom fuel real args
      let (n, args) ← atom fuel real args
      return (substring v p n, args)
    | "(" => do
      let (v, args) ← expression fuel real expressionLevels after
      match args.rest with
      | [')'] :: rest => return (v, ⟨[')'], rest⟩)
      | other :: _ => throw ("syntax error: expecting ')' instead of " ++ quoted other)
      | [] => throw ("syntax error: expecting ')' after " ++ quoted args.before)
    | ")" => throw "syntax error: unexpected ')'"
    | _ => return (t, after)

end

def expr : Tool := fun r => do
  let args := if r.args.head? == some ['-', '-'] then r.args.tail else r.args
  if args.isEmpty then r.lacking 2
  else match expression (16 * (args.length + 2)) true expressionLevels ⟨[], args⟩ with
    | .error e => r.fail e 2
    | .ok (_, ⟨_, extra :: _⟩) => r.fail ("syntax error: unexpected argument " ++ quoted extra) 2
    | .ok (v, _) => r.finish (v ++ ['\n']) (if isNothing v then 1 else 0) 3

end Judge.Tools
