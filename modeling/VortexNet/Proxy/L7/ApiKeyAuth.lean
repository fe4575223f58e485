import VortexNet.Http.HttpParser
import VortexNet.Lib.SortedSet

/-!
# API keys

`Middleware/ApiKeyAuth.cc`: the token of an Authorization header and its lookup
in the sorted key vector. `std::string_view`s compare as unsigned bytes.
-/

namespace VortexNet

open Picohttpparser

structure ApiKeyAuthenticator where
  keys_ : List Bytes := []
  deriving DecidableEq

namespace ApiKeyAuthenticator

/-- `std::sort` and `std::unique`. -/
def load (keys : List Bytes) : ApiKeyAuthenticator where
  keys_ := SortedSets.ofList keys

/-- `std::lower_bound`, and an insertion there unless the key is found. -/
def addKey (a : ApiKeyAuthenticator) (key : Bytes) : ApiKeyAuthenticator where
  keys_ := SortedSets.insert a.keys_ key

def removeKey (a : ApiKeyAuthenticator) (key : Bytes) : ApiKeyAuthenticator where
  keys_ := a.keys_.filter (· ≠ key)

def isSpace (c : UInt8) : Bool := c = SP ∨ c = HT

def trimLeft (s : Bytes) : Bytes := s.dropWhile isSpace

def trimRight (s : Bytes) : Bytes := (s.reverse.dropWhile isSpace).reverse

def kScheme : Bytes := ascii "bearer"

/-- What follows a leading Bearer of any case, without the blanks around it. -/
def extractToken (header : Bytes) : Bytes :=
  let header := trimLeft header
  if header.length < kScheme.length then []
  else if (header.take kScheme.length).map toLower ≠ kScheme then []
  else trimRight (trimLeft (header.drop kScheme.length))

/-- `std::binary_search`: the first key not below the token, unless it is above. -/
def binary_search (keys : List Bytes) (token : Bytes) : Bool :=
  match keys.find? fun k => !decide (k < token) with
  | some k => !decide (token < k)
  | none => false

def authenticateValue (a : ApiKeyAuthenticator) (auth_header_value : Bytes) : Bool :=
  let token := extractToken auth_header_value
  if token = [] then false else binary_search a.keys_ token

/-- The first Authorization header decides; `data` is what the views point into. -/
def authenticate (a : ApiKeyAuthenticator) (headers : List (StringView × StringView))
    (data : Bytes) : Bool :=
  match headers.find? fun (name, _) => equalsIgnoreCase (name.read data) (ascii "Authorization") with
  | some (_, value) => a.authenticateValue (value.read data)
  | none => false

def unauthorizedResponse : Bytes := ascii
  "HTTP/1.1 401 Unauthorized\r\nContent-Type: application/json\r\nContent-Length: 24\r\nConnection: close\r\n\r\n\x7b\"error\":\"Unauthorized\"\x7d"

end ApiKeyAuthenticator

end VortexNet
