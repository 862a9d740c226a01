import UserManagedAccess.Url.Host

/-! Reading absolute URLs, and the step from a URL to its neighbour in the same directory. -/
namespace UserManagedAccess.Url
variable [DomainRules]

/-! ## Characters that are written as octets -/

def isFragmentEscaped (c : Char) : Bool :=
  Host.isControl c || [' ', '\x22', '<', '>', '\x60'].contains c

def isPathEscaped (c : Char) : Bool :=
  isFragmentEscaped c || ['#', '?', '\x7b', '\x7d'].contains c

def isUserinfoEscaped (c : Char) : Bool :=
  isPathEscaped c || ['/', ':', ';', '=', '@', '[', '\x5C', ']', '^', '|'].contains c

/-- Special schemes escape the apostrophe as well. -/
def isQueryEscaped (kind : SchemeKind) (c : Char) : Bool :=
  Host.isControl c || [' ', '\x22', '#', '<', '>'].contains c || (kind.isSpecial && c == '\'')

/-! ## Parts -/

/-- Control characters and spaces around the text go, and so do tabs and line ends within it. -/
def strip (text : List Char) : List Char :=
  let isOuter (c : Char) : Bool := c.toNat ≤ 0x20
  let trimmed := ((text.dropWhile isOuter).reverse.dropWhile isOuter).reverse
  trimmed.filter fun c => !(['\t', '\n', '\r'].contains c)

def isLetter (c : Char) : Bool := ('a' ≤ c && c ≤ 'z') || ('A' ≤ c && c ≤ 'Z')

def isSchemeChar (c : Char) : Bool := isLetter c || Host.isDigit c || ['+', '-', '.'].contains c

/-- The scheme before the first colon, in lower case, and what follows the colon. -/
def scheme? (text : List Char) : Option (List Char × List Char) :=
  let scheme := text.takeWhile isSchemeChar
  match text.dropWhile isSchemeChar with
  | ':' :: rest =>
    match scheme with
    | c :: _ => if isLetter c then some (scheme.map Char.toLower, rest) else none
    | [] => none
  | _ => none

def isSlash (kind : SchemeKind) (c : Char) : Bool :=
  c == '/' || (kind.isSpecial && c == '\x5C')

/-- Whether a character ends an authority. -/
def endsAuthority (kind : SchemeKind) (c : Char) : Bool :=
  isSlash kind c || c == '?' || c == '#'

/-- The text before and after the last `@`, if there is one. -/
def splitLastAt (text : List Char) : Option (List Char × List Char) :=
  if text.contains '@' then
    let host := (text.reverse.takeWhile (· != '@')).reverse
    some (text.take (text.length - host.length - 1), host)
  else none

/-- The name and the password of a user, separated by the first colon. -/
def userinfo (text : List Char) : List Char × List Char :=
  let name := text.takeWhile (· != ':')
  let password := (text.dropWhile (· != ':')).drop 1
  let escape := Text.Percent.encode isUserinfoEscaped
  (escape name, escape password)

/-- The host at the front of a text, up to a colon outside brackets, and what follows it. -/
def splitHost (inside : Bool) : List Char → List Char × List Char
  | [] => ([], [])
  | c :: rest =>
    if c == ':' && !inside then ([], c :: rest)
    else
      let inside := if c == '[' then true else if c == ']' then false else inside
      let (host, rest) := splitHost inside rest
      (c :: host, rest)

/-- The digits of a port; the default port of the scheme is not kept. -/
def parsePort (scheme : String) (digits : List Char) : Except UrlError (Option Nat) :=
  if !digits.all Host.isDigit then .error .invalidPort
  else if digits.isEmpty then .ok none
  else
    match Host.ofDigits? 10 digits with
    | some n =>
      if 65535 < n then .error .invalidPort
      else .ok (if defaultPort scheme == some n then none else some n)
    | none => .error .invalidPort

/-- The authority after two slashes. A special scheme needs a host, and so do a user and a port. -/
def parseAuthority (scheme : String) (kind : SchemeKind) (text : List Char) :
    Except UrlError Authority := do
  let (user, rest) := match splitLastAt text with
    | none => (([], []), text)
    | some (user, rest) => (userinfo user, rest)
  let (hostText, portText) := splitHost false rest
  if hostText.isEmpty then
    if kind.isSpecial || !portText.isEmpty || !(user.1.isEmpty && user.2.isEmpty) then
      throw .emptyHost
  let host ← if kind.isSpecial then Host.parse hostText else Host.parseOpaque hostText
  let port ← parsePort scheme (portText.drop 1)
  return { username := user.1, password := user.2, host, port }

/-- A segment that stands for the directory itself. -/
def isSingleDot (segment : List Char) : Bool :=
  [".", "%2e"].contains (String.ofList (segment.map Char.toLower))

/-- A segment that stands for the directory above. -/
def isDoubleDot (segment : List Char) : Bool :=
  ["..", ".%2e", "%2e.", "%2e%2e"].contains (String.ofList (segment.map Char.toLower))

/-- Appends segments to a path; dots move within it and are not kept. A path that ends in dots ends
in a slash. -/
def resolve (path : List (List Char)) : List (List Char) → List (List Char)
  | [] => path
  | [last] =>
    if isDoubleDot last then path.dropLast ++ [[]]
    else if isSingleDot last then path ++ [[]]
    else path ++ [last]
  | segment :: rest =>
    if isDoubleDot segment then resolve path.dropLast rest
    else if isSingleDot segment then resolve path rest
    else resolve (path ++ [segment]) rest

/-- The escaped segments of a text between slashes. -/
def segmentsOf (kind : SchemeKind) (text : List Char) : List (List Char) :=
  (text.splitOnP (isSlash kind)).map (Text.Percent.encode isPathEscaped)

/-- A path that opens with a slash, or an empty one. A special scheme always has a path. -/
def pathAfter (kind : SchemeKind) (text : List Char) : Path :=
  match text with
  | [] => if kind.isSpecial then .segments [[]] else .segments []
  | c :: rest =>
    .segments (resolve [] (segmentsOf kind (if isSlash kind c then rest else c :: rest)))

/-- Empty segments at the front of a local path are dropped. -/
def localPath : Path → Path
  | .segments list =>
    match list.dropWhile List.isEmpty with
    | [] => .segments [[]]
    | kept => .segments kept
  | path => path

/-- What stands before the first `?` or `#`, the query and the fragment. -/
def splitTail (kind : SchemeKind) (text : List Char) :
    List Char × Option (List Char) × Option (List Char) :=
  let front := text.takeWhile fun c => c != '?' && c != '#'
  let tail := text.dropWhile fun c => c != '?' && c != '#'
  let escapeFragment := Text.Percent.encode isFragmentEscaped
  match tail with
  | '?' :: rest =>
    let query := Text.Percent.encode (isQueryEscaped kind) (rest.takeWhile (· != '#'))
    match rest.dropWhile (· != '#') with
    | _ :: fragment => (front, some query, some (escapeFragment fragment))
    | [] => (front, some query, none)
  | _ :: fragment => (front, none, some (escapeFragment fragment))
  | [] => (front, none, none)

/-- What follows two slashes: an authority and a path. -/
def afterSlashes (scheme : String) (kind : SchemeKind) (text : List Char) :
    Except UrlError (Option Authority × Path) := do
  let a ← parseAuthority scheme kind (text.takeWhile (!endsAuthority kind ·))
  return (some a, pathAfter kind (text.dropWhile (!endsAuthority kind ·)))

/-- What follows the scheme of a local file; the host `localhost` is left out. -/
def afterFileScheme (text : List Char) : Except UrlError (Option Authority × Path) :=
  let slash (c : Char) : Bool := isSlash .file c
  let here (host : Host) : Option Authority := some ⟨[], [], host, none⟩
  let nobody : Option Authority := here (.name [])
  match text with
  | a :: b :: rest =>
    if slash a && slash b then
      let hostText := rest.takeWhile (!endsAuthority .file ·)
      let path := localPath (pathAfter .file (rest.dropWhile (!endsAuthority .file ·)))
      if hostText.isEmpty then .ok (nobody, path)
      else
        match Host.parse hostText with
        | .error e => .error e
        | .ok (.name name) =>
          .ok (if name == "localhost".toList then nobody else here (.name name), path)
        | .ok host => .ok (here host, path)
    else .ok (nobody, localPath (pathAfter .file text))
  | text => .ok (nobody, localPath (pathAfter .file text))

/-- What follows the scheme, up to the query. Special schemes take any number of slashes, none
included; others have an authority after exactly two. -/
def afterScheme (scheme : String) (kind : SchemeKind) (text : List Char) :
    Except UrlError (Option Authority × Path) :=
  match kind, text with
  | .file, _ => afterFileScheme text
  | .special, _ => afterSlashes scheme .special (text.dropWhile (isSlash .special))
  | .plain, '/' :: '/' :: rest => afterSlashes scheme .plain rest
  | .plain, '/' :: _ => .ok (none, pathAfter .plain text)
  | .plain, _ => .ok (none, .verbatim (Text.Percent.encode Host.isControl text))

/-- Reads an absolute URL. -/
def parse (text : String) : Except UrlError Url :=
  match scheme? (strip text.toList) with
  | none => .error .relativeWithoutBase
  | some (scheme, rest) =>
    let name := String.ofList scheme
    let kind := SchemeKind.of name
    let (front, query, fragment) := splitTail kind rest
    match afterScheme name kind front with
    | .error e => .error e
    | .ok (authority, path) => .ok { scheme, authority, path, query, fragment }

/-- The URL with its last path segment replaced, without query and fragment. -/
def sibling (url : Url) (name : List Char) : Except UrlError Url :=
  match url.path with
  | .verbatim _ => .error .relativeToOpaque
  | .segments list =>
    .ok { url with path := .segments (list.dropLast ++ [name]), query := none, fragment := none }

end UserManagedAccess.Url
