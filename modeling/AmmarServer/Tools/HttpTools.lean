import AmmarServer.Lib.CString

/-! The parts of `tools/http_tools.c` and the enumerations of `AmmServerlib.h` that several layers
share. -/

namespace AmmarServer
open CString

inductive TypesOfRequests
  | NONE | HEAD | GET | POST | PUT | DELETE | TRACE | OPTIONS | CONNECT | PATCH | BAD
  deriving DecidableEq, Repr

def getHTTPReasonPhrase (statusCode : Nat) : String :=
  match statusCode with
  | 200 => "OK"
  | 201 => "Created"
  | 202 => "Accepted"
  | 204 => "No Content"
  | 206 => "Partial Content"
  | 301 => "Moved Permanently"
  | 302 => "Found"
  | 304 => "Not Modified"
  | 400 => "Bad Request"
  | 401 => "Unauthorized"
  | 403 => "Forbidden"
  | 404 => "Not Found"
  | 405 => "Method Not Allowed"
  | 408 => "Request Timeout"
  | 409 => "Conflict"
  | 412 => "Precondition Failed"
  | 413 => "Content Too Large"
  | 415 => "Unsupported Media Type"
  | 416 => "Range Not Satisfiable"
  | 417 => "Expectation Failed"
  | 422 => "Unprocessable Content"
  | 429 => "Too Many Requests"
  | 500 => "Internal Server Error"
  | 501 => "Not Implemented"
  | 503 => "Service Unavailable"
  | _ =>
    if statusCode < 200 then "Informational"
    else if statusCode < 300 then "OK"
    else if statusCode < 400 then "Redirection"
    else if statusCode < 500 then "Bad Request"
    else "Internal Server Error"

end AmmarServer
