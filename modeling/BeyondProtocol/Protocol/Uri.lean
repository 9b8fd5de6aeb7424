import BeyondProtocol.Framework.Rfc3986
import BeyondProtocol.Protocol.Packet

/-!
# URIs (`uri.cpp`, `uri.hpp`)

A `URI` is taken apart once, by the URI library, which returns the components as ranges of the
text it was given. The object keeps the components and the text without user, query and fragment,
its base; query attributes are kept decoded and can be changed.

A pointer into the text is modelled by its position there, the null pointer by `none`.
-/

namespace BeyondProtocol

open Framework

/-! ## §1  Library types -/

/-- `UriTextRangeA` -/
structure TextRange where
  first : Nat
  afterLast : Nat
deriving DecidableEq

/-- `UriUriA`; the range of a component that is absent is null. -/
structure UriUriA where
  scheme : Option TextRange := none
  userInfo : Option TextRange := none
  hostText : Option TextRange := none
  portText : Option TextRange := none
  /-- The list at `pathHead`. -/
  path : List TextRange := []
  query : Option TextRange := none
  fragment : Option TextRange := none
deriving DecidableEq

/-- `std::map<std::string, std::string>` -/
abbrev Attributes : Type := Std.ExtTreeMap Text Text

/-- What the parser of URIs gets from the system and from the URI library. -/
structure UriEnv where
  /-- `getcwd` -/
  cwd : Option Text
  /-- `getenv("HOME")` -/
  home : Option Text
  /-- `uriParseSingleUriA`, if it succeeds. -/
  parseUri : Text → Option UriUriA
  /-- `uriDissectQueryMallocA`: the keys, with values if they have one. -/
  dissectQuery : Text → List (Text × Option Text)

/-- What a C string holds. -/
def cString (t : Text) : Text := t.takeWhile (· ≠ Char.ofNat 0)

/-- `std::string(r.first, r.afterLast - r.first)` -/
def TextRange.of (suri : Text) (r : TextRange) : Text :=
  (suri.drop r.first).take (r.afterLast - r.first)

def rangeText (suri : Text) : Option TextRange → Text
  | none => []
  | some r => r.of suri

/-- `std::string(start, last - start)`; from the null pointer this is undefined. -/
def stringAt (suri : Text) (start : Option Nat) (last : Nat) : Except Fault Text :=
  match start with
  | none => .error .undefined
  | some first =>
      if last < first then .error .thrown
      else .ok ((suri.drop first).take (last - first))

inductive StoiError : Type where
  | invalidArgument
  | outOfRange
deriving DecidableEq, Repr

/-- The number that decimal digits stand for. -/
def digitsValue (ds : Text) : Nat := ds.foldl (fun n c => 10 * n + (c.toNat - '0'.toNat)) 0

/-- `std::stoi`: white space, a sign and digits; what follows them is ignored. -/
def stoi (t : Text) : Except StoiError Int :=
  let t := t.dropWhile fun c => " \t\n\r".toList.contains c || c.toNat = 11 || c.toNat = 12
  let signed := t.head? = some '-' ∨ t.head? = some '+'
  let ds := (if signed then t.drop 1 else t).takeWhile Char.isDigit
  let value : Int := if t.head? = some '-' then -digitsValue ds else digitsValue ds
  if ds = [] then .error .invalidArgument
  else if -2 ^ 31 ≤ value ∧ value < 2 ^ 31 then .ok value
  else .error .outOfRange

/-- `std::to_string` of an `int`. -/
def intText (i : Int) : Text := (toString i).toList

/-! ## §2  The object -/

/-- `URI::scheme_t` -/
inductive Scheme : Type where
  | none | tcp | udp | ftl | ftlQuic | proxy | http | ws | wss | ipc | file | other | device | group
  | cast | mux | mirror | beyond
deriving DecidableEq, Repr

def schemeMap : List (Text × Scheme) :=
  [("tcp".toList, .tcp), ("udp".toList, .udp), ("ws".toList, .ws), ("wss".toList, .wss),
   ("ftl".toList, .ftl), ("quic".toList, .ftlQuic), ("proxy".toList, .proxy),
   ("http".toList, .http), ("ipc".toList, .ipc), ("device".toList, .device),
   ("file".toList, .file), ("group".toList, .group), ("beyond".toList, .beyond),
   ("mux".toList, .mux), ("mirror".toList, .mirror), ("cast".toList, .cast)]

structure URI where
  valid : Bool := false
  host : Text := []
  path : Text := []
  frag : Text := []
  base : Text := []
  userinfo : Text := []
  pathseg : List Text := []
  port : Int := 0
  proto : Scheme := .none
  protostr : Text := []
  qmap : Attributes := ∅

namespace URI

/-! ## §3  Parsing -/

/-- Unix style file names are made file URIs. -/
def fileText (env : UriEnv) (suri : Text) : Text :=
  if suri.head? = some '.' then
    match env.cwd with
    | some cwd => "file://".toList ++ cString cwd ++ suri.drop 1
    | none => suri
  else if suri.head? = some '/' then "file://".toList ++ suri
  else if suri.head? = some '~' then
    "file://".toList ++ cString (env.home.getD []) ++ suri.drop 1
  else suri

/-- The scheme that a text names; none at all means a file. -/
def schemeOf (prototext : Text) : Scheme :=
  if prototext = [] then .file else (schemeMap.lookup prototext).getD .other

/-- The number of a port, 0 for none. An argument that is no number is ignored. -/
def portOf (porttext : Text) : Except Fault Int :=
  if porttext.length = 0 then .ok 0
  else
    match stoi porttext with
    | .error .invalidArgument => .ok 0
    | .error .outOfRange => .error .thrown
    | .ok port => if port < 0 ∨ 65535 ≤ port then .error .thrown else .ok port

/-- `m_qmap[item->key] = item->value`. A missing value is a null pointer. -/
def addItem (qmap : Attributes) (item : Text × Option Text) : Except Fault Attributes :=
  match item.2 with
  | none => .error .undefined
  | some value => .ok (qmap.insert (cString item.1) (cString value))

/-- `m_qmap` from the items of the query. -/
def attributesOf (items : List (Text × Option Text)) : Except Fault Attributes :=
  items.foldlM addItem ∅

def qmapOf (env : UriEnv) (suri : Text) (query : Option TextRange) : Except Fault Attributes :=
  match query with
  | none => .ok ∅
  | some q => if q.first < q.afterLast then attributesOf (env.dissectQuery (q.of suri)) else .ok ∅

/-- `m_frag`, which ends where the query begins if there is one. -/
def fragOf (suri : Text) (query fragment : Option TextRange) : Text :=
  match fragment with
  | none => []
  | some f =>
      let fraglast := (query.map (·.first)).getD f.afterLast
      if f.first < fraglast then (TextRange.mk f.first fraglast).of suri else []

/-- `m_base` of a valid URI, from `start` on. -/
def baseFrom (suri : Text) (uri : UriUriA) (start : Option Nat) (qmap : Attributes) :
    Except Fault Text :=
  if 0 < qmap.size then stringAt suri start ((uri.query.map (·.first)).getD 0 - 1)
  else
    match uri.fragment with
    | some f => stringAt suri start (f.first - 1)
    | none => .ok (start.elim [] fun first => suri.drop first)

def baseOf (suri : Text) (uri : UriUriA) (qmap : Attributes) : Except Fault Text :=
  let start := uri.scheme.map (·.first)
  match uri.userInfo with
  | none => baseFrom suri uri start qmap
  | some user =>
      if user.of suri ≠ [] then do
        let front ← stringAt suri start user.first
        let rest ← baseFrom suri uri (some (user.afterLast + 1)) qmap
        return front ++ rest
      else baseFrom suri uri start qmap

/-- The part of `_parse` behind the URI library. -/
def ofRanges (env : UriEnv) (suri : Text) (uri : UriUriA) : Except Fault URI := do
  let host := rangeText suri uri.hostText
  let prototext := rangeText suri uri.scheme
  let port ← portOf (rangeText suri uri.portText)
  let pathseg := uri.path.map fun h => h.of suri
  let path := pathseg.flatMap fun pstr => '/' :: pstr
  let qmap ← qmapOf env suri uri.query
  let valid := schemeOf prototext ≠ .none ∧ (0 < host.length ∨ 0 < path.length)
  let base ← if valid then baseOf suri uri qmap else .ok []
  return {
    valid := valid
    host := host
    path := path
    frag := fragOf suri uri.query uri.fragment
    base := base
    userinfo := rangeText suri uri.userInfo
    pathseg := pathseg
    port := port
    proto := schemeOf prototext
    protostr := prototext
    qmap := qmap }

/-- `_parse`, called by the constructors. -/
def parse (env : UriEnv) (puri : Text) : Except Fault URI :=
  let suri := fileText env (cString puri)
  match env.parseUri suri with
  | none => .ok { host := "none".toList, port := -1, base := suri }
  | some uri => ofRanges env suri uri

/-- The copy constructor. -/
def copy (c : URI) : URI where
  valid := c.valid
  host := c.host
  port := c.port
  proto := c.proto
  path := c.path
  pathseg := c.pathseg
  qmap := c.qmap
  base := c.base
  userinfo := c.userinfo
  frag := c.frag

/-! ## §4  Observers -/

/-- A `size_t` result. -/
def sizeT (i : Int) : Nat := (i % 2 ^ 64).toNat

/-- `static_cast<int>` of a `size_t`. -/
def castInt (n : Nat) : Int := (BitVec.ofNat 32 n).toInt

/-- `getQuery` -/
def getQuery (u : URI) : Text :=
  u.qmap.toList.foldl (fun q x =>
    (if 0 < q.length then q ++ ['&'] else q) ++ (x.1 ++ '=' :: x.2)) []

/-- `to_string` -/
def toText (u : URI) : Text := if 0 < u.qmap.size then u.base ++ '?' :: u.getQuery else u.base

/-- `toFilePath` on Unix. -/
def toFilePath (u : URI) : Except Fault Text :=
  if u.proto ≠ .file ∧ u.proto ≠ .none then .error .thrown else .ok u.path

def getPathSegment (u : URI) (n : Int) : Text :=
  let i := if n < 0 then sizeT (u.pathseg.length + n) else n.toNat
  if u.pathseg.length ≤ i then [] else u.pathseg.getD i []

/-- The scheme, the host and the port, as `getBaseURI` and its loops start. -/
def originText (u : URI) : Text :=
  u.protostr ++ "://".toList ++ u.host ++ (if u.port ≠ 0 then ':' :: intText u.port else [])

/-- `getBaseURI(n)` -/
def getBaseURI (u : URI) (n : Int) : Text :=
  if castInt u.pathseg.length ≤ n then u.base
  else if 0 ≤ n then
    u.originText ++ (List.range n.toNat).flatMap fun i : Nat => '/' :: u.getPathSegment i
  else if 0 ≤ sizeT (u.pathseg.length + n) then
    u.originText ++ (List.range (sizeT (u.pathseg.length + n))).flatMap fun i =>
      '/' :: u.getPathSegment (castInt i)
  else []

def getBaseURIWithUser (u : URI) : Text :=
  u.protostr ++ "://".toList ++ (if 0 < u.userinfo.length then u.userinfo ++ ['@'] else []) ++
    u.host ++ (if 0 < u.port then ':' :: intText u.port else []) ++ u.path

/-- `getAttribute<std::string>` -/
def getAttribute (u : URI) (key : Text) : Text := (u.qmap[key]?).getD []

/-- `getAttribute<int>` -/
def getAttributeInt (u : URI) (key : Text) : Except StoiError Int :=
  match u.qmap[key]? with
  | none => .ok 0
  | some value => stoi value

def hasAttribute (u : URI) (a : Text) : Bool := u.qmap.contains a

def hasUserInfo (u : URI) : Bool := u.userinfo ≠ []

/-! ## §5  Attributes -/

def setAttribute (u : URI) (key value : Text) : URI := { u with qmap := u.qmap.insert key value }

/-- `setAttribute` with a number. -/
def setAttributeInt (u : URI) (key : Text) (value : Int) : URI :=
  { u with qmap := u.qmap.insert key (intText value) }

/-- What `to_json` uses of the JSON library. -/
structure JsonLib (J : Type) where
  ofText : Text → J
  /-- `json::parse`, unless the result is discarded. -/
  parse : Text → Option J
  /-- An assignment to a member of nested objects. -/
  assign : List Text → J → J → Except Fault J

/-- `to_json`; slashes in a key lead into objects. -/
def toJson {J : Type} (lib : JsonLib J) (u : URI) (json : J) : Except Fault J := do
  let uri := if 0 < u.frag.length then u.toText ++ '#' :: u.frag else u.toText
  let json ← lib.assign ["uri".toList] (lib.ofText uri) json
  u.qmap.toList.foldlM (fun json i =>
    lib.assign (i.1.splitOn '/') ((lib.parse i.2).getD (lib.ofText i.2)) json) json

end URI

end BeyondProtocol
