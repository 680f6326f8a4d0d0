import Bindery.Text.Basic

/-!
# URLs

A URL is split into its parts, and a relative one is joined to a base by the rules
for hierarchical schemes.
-/

namespace Bindery

open Text String

structure Url where
  scheme : String
  authority : String
  path : String
  parameters : String
  query : String
  fragment : String
deriving DecidableEq, Repr

namespace Url

def hierarchicalSchemes : List String :=
  ["", "ftp", "http", "gopher", "nntp", "imap", "wais", "file", "https", "shttp", "mms",
    "prospero", "rtsp", "rtsps", "rtspu", "sftp", "svn", "svn+ssh", "ws", "wss"]

def authoritySchemes : List String :=
  ["", "ftp", "http", "gopher", "nntp", "telnet", "imap", "wais", "file", "mms", "https", "shttp",
    "snews", "prospero", "rtsp", "rtsps", "rtspu", "rsync", "svn", "svn+ssh", "sftp", "nfs",
    "git", "git+ssh", "ws", "wss"]

def parameterSchemes : List String :=
  ["", "ftp", "hdl", "prospero", "http", "imap", "https", "shttp", "rtsp", "rtsps", "rtspu", "sip",
    "sips", "mms", "sftp", "tel"]

def isSchemeChar (c : Char) : Bool :=
  c.isAlphanum || c == '+' || c == '-' || c == '.'

/-- Splits off a scheme, in lower case, if the text starts with one. -/
def splitScheme? (chars : List Char) : Option (String × List Char) :=
  match cutChars ':' chars with
  | (front, some rest) =>
    match front with
    | [] => none
    | c :: _ =>
      if c.isAlpha && front.all isSchemeChar then
        some (ofList (front.map Char.toLower), rest)
      else none
  | _ => none

def isHexGroup (group : List Char) : Bool :=
  !group.isEmpty && group.length ≤ 4 && group.all fun c => (hexValue? c).isSome

/-- Whether a text is four numbers below 256, without leading zeros, between dots. -/
def isDottedQuad (chars : List Char) : Bool :=
  let numbers := splitChars '.' chars
  numbers.length == 4 && numbers.all fun digits =>
    !digits.isEmpty && digits.length ≤ 3 && digits.all Char.isDigit &&
      decimalValue digits ≤ 255 && (digits.length == 1 || digits.head? != some '0')

/-- Whether groups between colons are an address of eight groups, one run of which may be
left out, and the last two of which may be a dotted quad. -/
def isGroupedAddress (chars : List Char) : Bool :=
  let groups := splitChars ':' chars
  let groups : List (List Char) := match groups.getLast? with
    | some last => if isDottedQuad last then groups.dropLast ++ [['0'], ['0']] else groups
    | none => groups
  let inner := (groups.drop 1).dropLast
  let gaps := (inner.filter (fun group => group.isEmpty)).length
  let startsOpen := groups.head? == some []
  let endsOpen := groups.getLast? == some []
  let full := groups.filter (!·.isEmpty)
  3 ≤ groups.length && groups.length ≤ 9 && gaps ≤ 1 && full.all isHexGroup &&
    (if gaps = 1 then
      (!startsOpen || inner.head? == some []) && (!endsOpen || inner.getLast? == some []) &&
        full.length ≤ 7
    else !startsOpen && !endsOpen && groups.length == 8)

def isBracketedAddress (chars : List Char) : Bool :=
  match chars with
  | 'v' :: rest =>
    match cutChars '.' rest with
    | (version, some address) =>
      !version.isEmpty && (version.all fun c => (hexValue? c).isSome) && !address.isEmpty
    | _ => false
  | _ =>
    match cutChars '%' chars with
    | (address, none) => isGroupedAddress address
    | (address, some scope) => isGroupedAddress address && !scope.isEmpty && !scope.contains '%'

def hasValidBrackets (authority : List Char) : Bool :=
  if authority.contains '[' then
    authority.contains ']' &&
      (match (cutChars '[' authority).2 with
      | some rest => isBracketedAddress (cutChars ']' rest).1
      | none => false)
  else !authority.contains ']'

/-- Characters that are compatible with a text in which a mark of URLs stands, such as the
full-width forms of the marks. -/
def disguisedMarks : List (Nat × Nat) :=
  [(8263, 8265), (8448, 8449), (8453, 8454), (10868, 10868), (65043, 65043), (65046, 65046),
    (65109, 65110), (65119, 65119), (65131, 65131), (65283, 65283), (65295, 65295),
    (65306, 65306), (65311, 65312)]

/-- Whether an authority can be read in one way only: its brackets are well-formed, and no mark is
disguised. -/
def isPlainAuthority (authority : List Char) : Bool :=
  hasValidBrackets authority && !authority.any fun c => inRanges disguisedMarks c.toNat

def splitParameters (path : List Char) : List Char × List Char :=
  let last := path.reverse.takeWhile (· != '/') |>.reverse
  let directory := path.take (path.length - last.length)
  match cutChars ';' last with
  | (_, none) => (path, [])
  | (segment, some parameters) => (directory ++ segment, parameters)

/-- Splits a URL; `scheme` is used if it has none of its own. -/
def split? (text : String) (scheme : String := "") : Option Url :=
  let chars := (text.toList.dropWhile fun c => c.toNat ≤ 32).filter fun c =>
    c != '\t' && c != '\r' && c != '\n'
  let (scheme, chars) := (splitScheme? chars).getD (scheme, chars)
  let (authority, chars) := match chars with
    | '/' :: '/' :: rest =>
      let inside (c : Char) : Bool := c != '/' && c != '?' && c != '#'
      (rest.takeWhile inside, rest.dropWhile inside)
    | rest => ([], rest)
  if isPlainAuthority authority then
    let (chars, fragment) := cutChars '#' chars
    let (path, query) := cutChars '?' chars
    let (path, parameters) :=
      if parameterSchemes.contains scheme then splitParameters path else (path, [])
    some {
      scheme := scheme
      authority := ofList authority
      path := ofList path
      parameters := ofList parameters
      query := ofList (query.getD [])
      fragment := ofList (fragment.getD []) }
  else none

def text (url : Url) : String :=
  let path := if url.parameters = "" then url.path else url.path ++ ";" ++ url.parameters
  let path :=
    if url.authority ≠ "" ∨ (url.scheme ≠ "" ∧ authoritySchemes.contains url.scheme) ∨
        beginsWith path "//" then
      let rooted := if path ≠ "" ∧ !beginsWith path "/" then "/" ++ path else path
      "//" ++ url.authority ++ rooted
    else path
  (if url.scheme = "" then "" else url.scheme ++ ":") ++ path ++
    (if url.query = "" then "" else "?" ++ url.query) ++
    (if url.fragment = "" then "" else "#" ++ url.fragment)

/-- Follows path segments; a double dot takes the segment before it away. -/
def followSegments (done : List String) : List String → List String
  | [] => done
  | segment :: rest =>
    if segment = ".." then followSegments done.dropLast rest
    else if segment = "." then followSegments done rest
    else followSegments (done ++ [segment]) rest

/-- Drops the empty segments between the first and the last. -/
def dropEmptyInner : List String → List String
  | [] => []
  | first :: rest =>
    match rest.getLast? with
    | none => [first]
    | some last => first :: (rest.dropLast.filter (· ≠ "") ++ [last])

def joinPaths (base path : String) : String :=
  let baseSegments := split '/' base
  let directory := if baseSegments.getLast? = some "" then baseSegments else baseSegments.dropLast
  let segments :=
    if beginsWith path "/" then split '/' path
    else dropEmptyInner (directory ++ split '/' path)
  let resolved := followSegments [] segments
  let last := segments.getLast?
  let resolved := if last = some "." ∨ last = some ".." then resolved ++ [""] else resolved
  let joined := join "/" resolved
  if joined = "" then "/" else joined

def join? (base text : String) : Option String :=
  if base = "" then some text
  else if text = "" then some base
  else do
    let base ← split? base
    let url ← split? text base.scheme
    if url.scheme ≠ base.scheme ∨ !hierarchicalSchemes.contains url.scheme then return text
    if authoritySchemes.contains url.scheme ∧ url.authority ≠ "" then return url.text
    let url :=
      if authoritySchemes.contains url.scheme then { url with authority := base.authority } else url
    if url.path = "" ∧ url.parameters = "" then
      let query := if url.query = "" then base.query else url.query
      return { url with path := base.path, parameters := base.parameters, query := query }.text
    return { url with path := joinPaths base.path url.path }.text

end Url

end Bindery
