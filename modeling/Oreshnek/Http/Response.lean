import Oreshnek.Base

/-!
# Responses

`HttpStatus` and `HttpResponse`: a status, a header map, and either a text or the
path of a file that the connection streams later. The header map is an
association list; `build_headers_string` writes it in that list's order, where
the source leaves the order to `std::unordered_map`.
-/

namespace Oreshnek

inductive HttpStatus where
  | continue | ok | created | accepted | noContent | partialContent | notModified | badRequest
  | unauthorized | forbidden | notFound | methodNotAllowed | conflict | payloadTooLarge
  | rangeNotSatisfiable | tooManyRequests | internalServerError | notImplemented
  | serviceUnavailable
deriving DecidableEq, Repr

namespace HttpStatus

/-- `static_cast<int>(status)`. -/
def code : HttpStatus → Nat
  | .continue => 100
  | .ok => 200
  | .created => 201
  | .accepted => 202
  | .noContent => 204
  | .partialContent => 206
  | .notModified => 304
  | .badRequest => 400
  | .unauthorized => 401
  | .forbidden => 403
  | .notFound => 404
  | .methodNotAllowed => 405
  | .conflict => 409
  | .payloadTooLarge => 413
  | .rangeNotSatisfiable => 416
  | .tooManyRequests => 429
  | .internalServerError => 500
  | .notImplemented => 501
  | .serviceUnavailable => 503

/-- `http_status_to_string`. -/
def toBytes : HttpStatus → Bytes
  | .continue => lit "Continue"
  | .ok => lit "OK"
  | .created => lit "Created"
  | .accepted => lit "Accepted"
  | .noContent => lit "No Content"
  | .partialContent => lit "Partial Content"
  | .notModified => lit "Not Modified"
  | .badRequest => lit "Bad Request"
  | .unauthorized => lit "Unauthorized"
  | .forbidden => lit "Forbidden"
  | .notFound => lit "Not Found"
  | .methodNotAllowed => lit "Method Not Allowed"
  | .conflict => lit "Conflict"
  | .payloadTooLarge => lit "Payload Too Large"
  | .rangeNotSatisfiable => lit "Range Not Satisfiable"
  | .tooManyRequests => lit "Too Many Requests"
  | .internalServerError => lit "Internal Server Error"
  | .notImplemented => lit "Not Implemented"
  | .serviceUnavailable => lit "Service Unavailable"

end HttpStatus

/-- The alternatives of `body_content_`. -/
inductive BodyContent where
  | text (content : Bytes)
  | filePath (path : Bytes)
deriving DecidableEq

/-- `std::unordered_map<std::string, std::string>`. -/
abbrev HeaderMap := AList fun _ : Bytes => Bytes

structure HttpResponse where
  status : HttpStatus := .ok
  headers : HeaderMap := ∅
  bodyContent : BodyContent := .text []
  isFile : Bool := false
  fileOffset : Int := 0
  /-- Negative: up to the end of the file. -/
  fileLength : Int := -1
  /-- Headers are sent, the body is not. -/
  headOnly : Bool := false
deriving DecidableEq

namespace HttpResponse

/-- `header(name, value)`. -/
def header (r : HttpResponse) (name value : Bytes) : HttpResponse :=
  { r with headers := r.headers.insert name value }

/-- `HttpResponse()`. -/
def new : HttpResponse :=
  (({ : HttpResponse}).header (lit "Server") (lit "Oreshnek/1.0.0")).header
    (lit "Connection") (lit "keep-alive")

/-- `status(status)`. -/
def setStatus (r : HttpResponse) (status : HttpStatus) : HttpResponse := { r with status }

/-- `body(content)`. -/
def body (r : HttpResponse) (content : Bytes) : HttpResponse :=
  { r with bodyContent := .text content, isFile := false }.header
    (lit "Content-Length") (toString_ content.length)

/-- `file(path, content_type)`, with what `file_size` answers, `none` for an
error. -/
def file (r : HttpResponse) (path contentType : Bytes) (fileSize : Option Nat) :
    HttpResponse :=
  let r := { r with bodyContent := .filePath path, isFile := true }.header
    (lit "Content-Type") contentType
  match fileSize with
  | some size => r.header (lit "Content-Length") (toString_ size)
  | none => r

/-- `json(value)` for a value that `dump` writes as `text`. -/
def json (r : HttpResponse) (text : Bytes) : HttpResponse :=
  (r.body text).header (lit "Content-Type") (lit "application/json")

/-- `text(content)`. -/
def text (r : HttpResponse) (content : Bytes) : HttpResponse :=
  (r.body content).header (lit "Content-Type") (lit "text/plain")

/-- `html(content)`. -/
def html (r : HttpResponse) (content : Bytes) : HttpResponse :=
  (r.body content).header (lit "Content-Type") (lit "text/html")

/-- `set_file_range`. -/
def setFileRange (r : HttpResponse) (offset length : Int) : HttpResponse :=
  { r with fileOffset := offset, fileLength := length }

/-- `set_head_only`. -/
def setHeadOnly (r : HttpResponse) (v : Bool) : HttpResponse := { r with headOnly := v }

/-- `file_path()`. -/
def filePath (r : HttpResponse) : Bytes :=
  match r.isFile, r.bodyContent with
  | true, .filePath path => path
  | _, _ => []

/-- `build_headers_string()` at a time that is written as `date`. -/
def buildHeadersString (r : HttpResponse) (date : Bytes) : Bytes :=
  lit "HTTP/1.1 " ++ toString_ r.status.code ++ lit " " ++ r.status.toBytes ++ crlf ++
    lit "Date: " ++ date ++ crlf ++
    (r.headers.entries.flatMap fun e => e.1 ++ lit ": " ++ e.2 ++ crlf) ++ crlf

@[simp] theorem header_headOnly (r : HttpResponse) (n v : Bytes) :
    (r.header n v).headOnly = r.headOnly := rfl
@[simp] theorem header_isFile (r : HttpResponse) (n v : Bytes) :
    (r.header n v).isFile = r.isFile := rfl
@[simp] theorem header_status (r : HttpResponse) (n v : Bytes) :
    (r.header n v).status = r.status := rfl
@[simp] theorem setStatus_headOnly (r : HttpResponse) (s : HttpStatus) :
    (r.setStatus s).headOnly = r.headOnly := rfl
@[simp] theorem setFileRange_headOnly (r : HttpResponse) (o l : Int) :
    (r.setFileRange o l).headOnly = r.headOnly := rfl
@[simp] theorem setHeadOnly_headOnly (r : HttpResponse) (v : Bool) :
    (r.setHeadOnly v).headOnly = v := rfl

end HttpResponse

/-! ## The bodies the server itself sends -/

/-- The object with the one member `error`, as `dump` writes it; the messages
need no escapes. -/
def errorJson (message : Bytes) : Bytes :=
  lit "\x7b\"error\":\"" ++ message ++ lit "\"\x7d"

end Oreshnek
