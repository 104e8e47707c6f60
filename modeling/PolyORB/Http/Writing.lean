import PolyORB.Http.Filter

/-!
# Outgoing HTTP messages

`Prepare_Request`, `Prepare_Header_Only` and `Prepare_Message` of `PolyORB.Filters.HTTP`, with the
request and response data they are given: `AWS_Request_Out`, and `PolyORB.SOAP_P.Response.Data` with
its constructors.
-/

namespace PolyORB.Http

open Lines

def header (h : Header) (value : Text) : Text := h.word.getD [] ++ ascii ": " ++ value

/-! ## Requests -/

structure AwsRequestOut where
  requestMethod : Method
  relativeUri : Text
  data : Text
  soapAction : Text

def soapActionLine (action : Text) : Text :=
  if action = [] then [] else line (header .soapAction action)

def requestContentType (action : Text) : Text :=
  if action = [] then ascii "application/x-www-form-urlencoded" else ascii "text/xml"

def requestLine (method uri : Text) (version : HttpVersion) : Text :=
  method ++ ascii " " ++ uri ++ ascii " " ++ imageVersion version

def requestStart (version : HttpVersion) (method : Text) (ro : AwsRequestOut) : Text :=
  line (requestLine method ro.relativeUri version) ++
    line (header .acceptLanguage (ascii "fr, us")) ++
    line (header .userAgent (ascii "PolyORB")) ++
    line (header .connection (ascii "Close")) ++
    soapActionLine ro.soapAction

def prepareRequest (version : HttpVersion) (ro : AwsRequestOut) : Except Exn Text := do
  let method ← ro.requestMethod.word.elim (.error .constraintError) .ok
  match ro.requestMethod with
  | .get => .ok (requestStart version method ro ++ crlf)
  | .post => .ok (requestStart version method ro ++
      line (header .contentType (requestContentType ro.soapAction)) ++
      line (header .contentLength (Literals.decimal ro.data.length)) ++ crlf ++ ro.data)
  | _ => .error .programError

/-! ## Responses -/

inductive DataMode where
  | header | message
  deriving DecidableEq

/-- `PolyORB.SOAP_P.Response.Data` -/
structure ResponseData where
  mode : DataMode
  statusCode : HttpStatusCode
  contentLength : Nat
  contentType : Text
  messageBody : Text
  location : Text
  realm : Text
  elements : Option Text

/-- The constructors of response data, whose type is private. -/
inductive Response where
  | build (contentType messageBody : Text) (statusCode : HttpStatusCode)
  | buildBinary (contentType messageBody : Text) (statusCode : HttpStatusCode)
  | url (location : Text)
  | moved (location message : Text)
  | acknowledge (statusCode : HttpStatusCode) (messageBody contentType : Text)
  | authenticate (realm : Text)

def replaceFirst (pattern value : Text) : Text → Text
  | [] => if pattern = [] then value else []
  | c :: cs =>
    if pattern.isPrefixOf (c :: cs) = true then value ++ (c :: cs).drop pattern.length
    else c :: replaceFirst pattern value cs

def authMess : Text :=
  [ascii "<HTML><HEAD>", ascii "<TITLE>401 Authorization Required</TITLE>", ascii "</HEAD><BODY>",
    ascii "<H1>Authorization Required</H1>", ascii "This server could not verify that you",
    ascii "are authorized to access the document you",
    ascii "requested.  Either you supplied the wrong",
    ascii "credentials (e.g., bad password), or your",
    ascii "browser doesn't understand how to supply", ascii "the credentials required.<P>",
    ascii "</BODY></HTML>"].flatMap line

def textHtml : Text := ascii "text/html"

def Response.data : Response → ResponseData
  | build contentType messageBody statusCode =>
    ⟨.message, statusCode, messageBody.length, contentType, messageBody, [], [], none⟩
  | buildBinary contentType messageBody statusCode =>
    ⟨.message, statusCode, messageBody.length, contentType, [], [], [], some messageBody⟩
  | url location => ⟨.message, .s301MovedPermanently, 0, [], [], location, [], none⟩
  | moved location message =>
    let messageBody := replaceFirst (ascii "_@_") location message
    ⟨.message, .s301MovedPermanently, messageBody.length, textHtml, messageBody, location, [], none⟩
  | acknowledge statusCode messageBody contentType =>
    if messageBody = [] then ⟨.header, statusCode, 0, [], [], [], [], none⟩
    else ⟨.message, statusCode, messageBody.length, contentType, messageBody, [], [], none⟩
  | authenticate realm =>
    ⟨.message, .s401Unauthorized, authMess.length, textHtml, authMess, [], realm, none⟩

def generalHeader : Text := line (header .server (ascii "PolyORB"))

def locationLine (rd : ResponseData) : Text :=
  if rd.statusCode = .s301MovedPermanently then line (header .location rd.location) else []

def realmLine (rd : ResponseData) : Text :=
  if rd.statusCode = .s401Unauthorized then
    line (header .wwwAuthenticate (ascii "Basic realm=\"" ++ rd.realm ++ ascii "\""))
  else []

def prepareHeaderOnly (version : HttpVersion) (rd : ResponseData) : Text :=
  line (statusLine version rd.statusCode) ++ generalHeader ++
    line (header .contentLength (ascii "0")) ++ realmLine rd ++ crlf

def prepareMessage (version : HttpVersion) (rd : ResponseData) : Text :=
  line (statusLine version rd.statusCode) ++ locationLine rd ++ generalHeader ++
    line (header .contentLength (Literals.decimal rd.contentLength)) ++
    line (header .contentType rd.contentType) ++ realmLine rd ++ crlf ++ rd.messageBody

/-- What `Handle_Message` writes for `AWS_Response_Out`. -/
def prepareResponse (version : HttpVersion) (rd : ResponseData) : Text :=
  match rd.mode with
  | .header => prepareHeaderOnly version rd
  | .message => prepareMessage version rd

end PolyORB.Http
