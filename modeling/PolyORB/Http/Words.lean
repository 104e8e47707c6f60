import PolyORB.Lib.Lines
import PolyORB.Lib.Numerals
import PolyORB.Types

/-!
# Words of HTTP

The methods, headers and status codes of `PolyORB.HTTP_Methods`, `PolyORB.HTTP_Headers` and
`PolyORB.Filters.HTTP`.  The bodies of the first two are generated at build time around a perfect
hash function, which is a parameter here.
-/

namespace PolyORB.Http

open Lines

abbrev Text := List UInt8

/-! ## Sets of words -/

/-- A table of words, each at its own place, and a hash function that finds the place of each word;
there is no word for `extension`. -/
structure WordSet (ι : Type) where
  table : ι → Option Text
  extension : ι
  hash : Text → ι
  hash_word : ∀ s, (table (hash s)).isSome
  hash_table : ∀ i w, table i = some w → hash w = i

namespace WordSet

variable {ι : Type} (W : WordSet ι)

def inWordSet (s : Text) : ι := if W.table (W.hash s) = some s then W.hash s else W.extension

theorem inWordSet_word {i : ι} {w : Text} (h : W.table i = some w) : W.inWordSet w = i := by
  have hhash := W.hash_table i w h
  rw [inWordSet, hhash, if_pos h]

/-- A set whose hash function goes through the table. -/
def search [DecidableEq ι] (all : List ι) (table : ι → Option Text) (extension first : ι)
    (hall : ∀ i, i ∈ all) (hfirst : (table first).isSome)
    (hnodup : (all.map table).Nodup) : WordSet ι where
  table := table
  extension := extension
  hash s := (all.find? fun i => table i == some s).getD first
  hash_word s := by
    cases h : all.find? fun i => table i == some s with
    | none => exact hfirst
    | some i =>
      have hi : table i = some s := by simpa using List.find?_some h
      rw [Option.getD_some, hi]
      rfl
  hash_table i w hi := by
    have hsome : (all.find? fun j => table j == some w).isSome :=
      List.find?_isSome.2 ⟨i, hall i, by simp [hi]⟩
    obtain ⟨j, hj⟩ := Option.isSome_iff_exists.1 hsome
    have hw : table j = some w := by simpa using List.find?_some hj
    rw [hj, Option.getD_some]
    exact List.inj_on_of_nodup_map hnodup (hall j) (hall i) (hw.trans hi.symm)

end WordSet

inductive Method where
  | options | get | head | post | put | delete | trace | connect | extensionMethod
  deriving DecidableEq

def Method.word : Method → Option Text
  | options => some (ascii "OPTIONS")
  | get => some (ascii "GET")
  | head => some (ascii "HEAD")
  | post => some (ascii "POST")
  | put => some (ascii "PUT")
  | delete => some (ascii "DELETE")
  | trace => some (ascii "TRACE")
  | connect => some (ascii "CONNECT")
  | extensionMethod => none

def Method.all : List Method :=
  [.options, .get, .head, .post, .put, .delete, .trace, .connect, .extensionMethod]

inductive Header where
  | cacheControl | connection | date | pragma | trailer | transferEncoding | upgrade | via
  | warning | accept | acceptCharset | acceptLanguage | authorization | expect | fromHeader
  | host | ifMatch | ifModifiedSince | ifNoneMatch | ifRange | ifUnmodifiedSince | maxForwards
  | proxyAuthorization | range | referer | te | userAgent | acceptRanges | age | etag | location
  | proxyAuthenticate | retryAfter | server | vary | wwwAuthenticate | allow | contentEncoding
  | contentLanguage | contentLength | contentLocation | contentMd5 | contentRange | contentType
  | expires | lastModified | soapAction | extensionHeader
  deriving DecidableEq

namespace Header

def word : Header → Option Text
  | cacheControl => some (ascii "Cache-Control")
  | connection => some (ascii "Connection")
  | date => some (ascii "Date")
  | pragma => some (ascii "Pragma")
  | trailer => some (ascii "Trailer")
  | transferEncoding => some (ascii "Transfer-Encoding")
  | upgrade => some (ascii "Upgrade")
  | via => some (ascii "Via")
  | warning => some (ascii "Warning")
  | accept => some (ascii "Accept")
  | acceptCharset => some (ascii "Accept-Charset")
  | acceptLanguage => some (ascii "Accept-Language")
  | authorization => some (ascii "Authorization")
  | expect => some (ascii "Expect")
  | fromHeader => some (ascii "From")
  | host => some (ascii "Host")
  | ifMatch => some (ascii "If-Match")
  | ifModifiedSince => some (ascii "If-Modified-Since")
  | ifNoneMatch => some (ascii "If-None-Match")
  | ifRange => some (ascii "If-Range")
  | ifUnmodifiedSince => some (ascii "If-Unmodified-Since")
  | maxForwards => some (ascii "Max-Forwards")
  | proxyAuthorization => some (ascii "Proxy-Authorization")
  | range => some (ascii "Range")
  | referer => some (ascii "Referer")
  | te => some (ascii "TE")
  | userAgent => some (ascii "User-Agent")
  | acceptRanges => some (ascii "Accept-Ranges")
  | age => some (ascii "Age")
  | etag => some (ascii "ETag")
  | location => some (ascii "Location")
  | proxyAuthenticate => some (ascii "Proxy-Authenticate")
  | retryAfter => some (ascii "Retry-After")
  | server => some (ascii "Server")
  | vary => some (ascii "Vary")
  | wwwAuthenticate => some (ascii "WWW-Authenticate")
  | allow => some (ascii "Allow")
  | contentEncoding => some (ascii "Content-Encoding")
  | contentLanguage => some (ascii "Content-Language")
  | contentLength => some (ascii "Content-Length")
  | contentLocation => some (ascii "Content-Location")
  | contentMd5 => some (ascii "Content-MD5")
  | contentRange => some (ascii "Content-Range")
  | contentType => some (ascii "Content-Type")
  | expires => some (ascii "Expires")
  | lastModified => some (ascii "Last-Modified")
  | soapAction => some (ascii "SOAPAction")
  | extensionHeader => none

def all : List Header :=
  [.cacheControl, .connection, .date, .pragma, .trailer, .transferEncoding, .upgrade, .via,
    .warning, .accept, .acceptCharset, .acceptLanguage, .authorization, .expect, .fromHeader,
    .host, .ifMatch, .ifModifiedSince, .ifNoneMatch, .ifRange, .ifUnmodifiedSince, .maxForwards,
    .proxyAuthorization, .range, .referer, .te, .userAgent, .acceptRanges, .age, .etag,
    .location, .proxyAuthenticate, .retryAfter, .server, .vary, .wwwAuthenticate, .allow,
    .contentEncoding, .contentLanguage, .contentLength, .contentLocation, .contentMd5,
    .contentRange, .contentType, .expires, .lastModified, .soapAction, .extensionHeader]

theorem mem_all (h : Header) : h ∈ all := by cases h <;> decide

def isRequest : Header → Bool
  | accept | acceptCharset | acceptLanguage | authorization | expect | fromHeader | host
  | ifMatch | ifModifiedSince | ifNoneMatch | ifRange | ifUnmodifiedSince | maxForwards
  | proxyAuthorization | range | referer | te | userAgent => true
  | _ => false

def isResponse : Header → Bool
  | acceptRanges | age | etag | location | proxyAuthenticate | retryAfter | server | vary
  | wwwAuthenticate => true
  | _ => false

end Header

/-- The generated bodies: the tables, and the hash functions made for them. -/
structure WordSets where
  methods : WordSet Method
  headers : WordSet Header
  methods_table : methods.table = Method.word
  methods_extension : methods.extension = .extensionMethod
  headers_table : headers.table = Header.word
  headers_extension : headers.extension = .extensionHeader

/-- Bodies with hash functions that go through the tables. -/
def WordSets.search : WordSets where
  methods := .search Method.all Method.word .extensionMethod .options
    (by intro m; cases m <;> decide) rfl (by decide)
  headers := .search Header.all Header.word .extensionHeader .cacheControl Header.mem_all rfl
    (by decide +kernel)
  methods_table := rfl
  methods_extension := rfl
  headers_table := rfl
  headers_extension := rfl

/-! ## Status codes -/

inductive HttpStatusCode where
  | unknown | s100Continue | s101SwitchingProtocols | s1xxOtherInformational | s200Ok
  | s201Created | s202Accepted | s203NonAuthoritativeInformation | s204NoContent
  | s205ResetContent | s206PartialContent | s2xxOtherSuccessful | s300MultipleChoices
  | s301MovedPermanently | s302Found | s303SeeOther | s304NotModified | s305UseProxy | s306Unused
  | s307TemporaryRedirect | s3xxOtherRedirection | s400BadRequest | s401Unauthorized
  | s402PaymentRequired | s403Forbidden | s404NotFound | s405MethodNotAllowed | s406NotAcceptable
  | s407ProxyAuthenticationRequired | s408RequestTimeout | s409Conflict | s410Gone
  | s411LengthRequired | s412PreconditionFailed | s413RequestEntityTooLarge
  | s414RequestUriTooLong | s415UnsupportedMediaType | s416RequestRangeNotSatisfiable
  | s417ExpectationFailed | s4xxOtherClientError | s500InternalServerError | s501NotImplemented
  | s502BadGateway | s503ServiceUnavailable | s504GatewayTimeout | s505HttpVersionNotSupprted
  | s5xxOtherServerError
  deriving DecidableEq

namespace HttpStatusCode

/-- The representation clause. -/
def code : HttpStatusCode → Nat
  | unknown => 0
  | s100Continue => 100
  | s101SwitchingProtocols => 101
  | s1xxOtherInformational => 199
  | s200Ok => 200
  | s201Created => 201
  | s202Accepted => 202
  | s203NonAuthoritativeInformation => 203
  | s204NoContent => 204
  | s205ResetContent => 205
  | s206PartialContent => 206
  | s2xxOtherSuccessful => 299
  | s300MultipleChoices => 300
  | s301MovedPermanently => 301
  | s302Found => 302
  | s303SeeOther => 303
  | s304NotModified => 304
  | s305UseProxy => 305
  | s306Unused => 306
  | s307TemporaryRedirect => 307
  | s3xxOtherRedirection => 399
  | s400BadRequest => 400
  | s401Unauthorized => 401
  | s402PaymentRequired => 402
  | s403Forbidden => 403
  | s404NotFound => 404
  | s405MethodNotAllowed => 405
  | s406NotAcceptable => 406
  | s407ProxyAuthenticationRequired => 407
  | s408RequestTimeout => 408
  | s409Conflict => 409
  | s410Gone => 410
  | s411LengthRequired => 411
  | s412PreconditionFailed => 412
  | s413RequestEntityTooLarge => 413
  | s414RequestUriTooLong => 414
  | s415UnsupportedMediaType => 415
  | s416RequestRangeNotSatisfiable => 416
  | s417ExpectationFailed => 417
  | s4xxOtherClientError => 499
  | s500InternalServerError => 500
  | s501NotImplemented => 501
  | s502BadGateway => 502
  | s503ServiceUnavailable => 503
  | s504GatewayTimeout => 504
  | s505HttpVersionNotSupprted => 505
  | s5xxOtherServerError => 599

def image : HttpStatusCode → Text
  | unknown => ascii "S_UNKNOWN"
  | s100Continue => ascii "S_100_CONTINUE"
  | s101SwitchingProtocols => ascii "S_101_SWITCHING_PROTOCOLS"
  | s1xxOtherInformational => ascii "S_1XX_OTHER_INFORMATIONAL"
  | s200Ok => ascii "S_200_OK"
  | s201Created => ascii "S_201_CREATED"
  | s202Accepted => ascii "S_202_ACCEPTED"
  | s203NonAuthoritativeInformation => ascii "S_203_NON_AUTHORITATIVE_INFORMATION"
  | s204NoContent => ascii "S_204_NO_CONTENT"
  | s205ResetContent => ascii "S_205_RESET_CONTENT"
  | s206PartialContent => ascii "S_206_PARTIAL_CONTENT"
  | s2xxOtherSuccessful => ascii "S_2XX_OTHER_SUCCESSFUL"
  | s300MultipleChoices => ascii "S_300_MULTIPLE_CHOICES"
  | s301MovedPermanently => ascii "S_301_MOVED_PERMANENTLY"
  | s302Found => ascii "S_302_FOUND"
  | s303SeeOther => ascii "S_303_SEE_OTHER"
  | s304NotModified => ascii "S_304_NOT_MODIFIED"
  | s305UseProxy => ascii "S_305_USE_PROXY"
  | s306Unused => ascii "S_306_UNUSED"
  | s307TemporaryRedirect => ascii "S_307_TEMPORARY_REDIRECT"
  | s3xxOtherRedirection => ascii "S_3XX_OTHER_REDIRECTION"
  | s400BadRequest => ascii "S_400_BAD_REQUEST"
  | s401Unauthorized => ascii "S_401_UNAUTHORIZED"
  | s402PaymentRequired => ascii "S_402_PAYMENT_REQUIRED"
  | s403Forbidden => ascii "S_403_FORBIDDEN"
  | s404NotFound => ascii "S_404_NOT_FOUND"
  | s405MethodNotAllowed => ascii "S_405_METHOD_NOT_ALLOWED"
  | s406NotAcceptable => ascii "S_406_NOT_ACCEPTABLE"
  | s407ProxyAuthenticationRequired => ascii "S_407_PROXY_AUTHENTICATION_REQUIRED"
  | s408RequestTimeout => ascii "S_408_REQUEST_TIMEOUT"
  | s409Conflict => ascii "S_409_CONFLICT"
  | s410Gone => ascii "S_410_GONE"
  | s411LengthRequired => ascii "S_411_LENGTH_REQUIRED"
  | s412PreconditionFailed => ascii "S_412_PRECONDITION_FAILED"
  | s413RequestEntityTooLarge => ascii "S_413_REQUEST_ENTITY_TOO_LARGE"
  | s414RequestUriTooLong => ascii "S_414_REQUEST_URI_TOO_LONG"
  | s415UnsupportedMediaType => ascii "S_415_UNSUPPORTED_MEDIA_TYPE"
  | s416RequestRangeNotSatisfiable => ascii "S_416_REQUEST_RANGE_NOT_SATISFIABLE"
  | s417ExpectationFailed => ascii "S_417_EXPECTATION_FAILED"
  | s4xxOtherClientError => ascii "S_4XX_OTHER_CLIENT_ERROR"
  | s500InternalServerError => ascii "S_500_INTERNAL_SERVER_ERROR"
  | s501NotImplemented => ascii "S_501_NOT_IMPLEMENTED"
  | s502BadGateway => ascii "S_502_BAD_GATEWAY"
  | s503ServiceUnavailable => ascii "S_503_SERVICE_UNAVAILABLE"
  | s504GatewayTimeout => ascii "S_504_GATEWAY_TIMEOUT"
  | s505HttpVersionNotSupprted => ascii "S_505_HTTP_VERSION_NOT_SUPPRTED"
  | s5xxOtherServerError => ascii "S_5XX_OTHER_SERVER_ERROR"

def all : List HttpStatusCode :=
  [.unknown, .s100Continue, .s101SwitchingProtocols, .s1xxOtherInformational, .s200Ok,
    .s201Created, .s202Accepted, .s203NonAuthoritativeInformation, .s204NoContent,
    .s205ResetContent, .s206PartialContent, .s2xxOtherSuccessful, .s300MultipleChoices,
    .s301MovedPermanently, .s302Found, .s303SeeOther, .s304NotModified, .s305UseProxy,
    .s306Unused, .s307TemporaryRedirect, .s3xxOtherRedirection, .s400BadRequest,
    .s401Unauthorized, .s402PaymentRequired, .s403Forbidden, .s404NotFound,
    .s405MethodNotAllowed, .s406NotAcceptable, .s407ProxyAuthenticationRequired,
    .s408RequestTimeout, .s409Conflict, .s410Gone, .s411LengthRequired, .s412PreconditionFailed,
    .s413RequestEntityTooLarge, .s414RequestUriTooLong, .s415UnsupportedMediaType,
    .s416RequestRangeNotSatisfiable, .s417ExpectationFailed, .s4xxOtherClientError,
    .s500InternalServerError, .s501NotImplemented, .s502BadGateway, .s503ServiceUnavailable,
    .s504GatewayTimeout, .s505HttpVersionNotSupprted, .s5xxOtherServerError]

theorem mem_all (s : HttpStatusCode) : s ∈ all := by cases s <;> decide

theorem code_injective {s t : HttpStatusCode} (h : s.code = t.code) : s = t := by
  have hnodup : (all.map code).Nodup := by decide +kernel
  exact List.inj_on_of_nodup_map hnodup (mem_all s) (mem_all t) h

theorem isLine_image (s : HttpStatusCode) : IsLine s.image := by cases s <;> decide

theorem code_range {s : HttpStatusCode} (h : s ≠ unknown) : 100 ≤ s.code ∧ s.code < 1000 := by
  cases s with
  | unknown => exact absurd rfl h
  | _ => decide

end HttpStatusCode

end PolyORB.Http
