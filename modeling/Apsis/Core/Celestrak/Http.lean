/-
# The CelesTrak driver

`CelestrakHttpClient.fetch_group`: the mapping of the HTTP response to a body or
an error, and `_parse_records`, which cuts the body into records of three lines.
-/

import Apsis.Library.Text

namespace Apsis.Core.Celestrak

open Apsis.Library

/-- `TleRecord` -/
structure TleRecord where
  name : Text
  line1 : Text
  line2 : Text
  deriving DecidableEq

/-- The exceptions of the driver. The first three are subclasses of the last
three's class, `CelestrakError`; each carries what its message is built from. -/
inductive CelestrakError
  | /-- `TleNotFound(text)` -/
    tleNotFound (text : Text)
  | /-- `RateLimitedError(text)` -/
    rateLimited (text : Text)
  | /-- `TransientError`, for a timeout, a transport error or a status from 500 on. -/
    transient (status : Option ℕ)
  | /-- `unexpected status {status}` -/
    unexpectedStatus (status : ℕ)
  | /-- `expected groups of 3 lines, got {lines}` -/
    ungrouped (lines : ℕ)
  | /-- `malformed TLE record near {name!r}` -/
    malformed (name : Text)
  deriving DecidableEq

/-- What comes back from the request. -/
inductive Response
  | /-- `httpx.TimeoutException` or `httpx.TransportError` -/
    failed
  | received (status : ℕ) (text : Text)
  deriving DecidableEq

/-- `_NOT_FOUND_BODY` -/
def notFoundBody : Text := "No GP data found".toList

/-- `text or default` -/
def orElse (text default : Text) : Text := if text.isEmpty then default else text

/-- `_get`, from the response on. -/
def get : Response → Except CelestrakError Text
  | .failed => .error (.transient none)
  | .received status body =>
      let text := Text.strip body
      if status = 403 then .error (.rateLimited text)
      else if 500 ≤ status then .error (.transient (some status))
      else if status = 404 ∨ status = 200 ∧ text = notFoundBody then
        .error (.tleNotFound (orElse text "no GP data".toList))
      else if status ≠ 200 then .error (.unexpectedStatus status)
      else .ok body

/-- The loop of `_parse_records`, over lines whose number is a multiple of three. -/
def recordsOf : List Text → Except CelestrakError (List TleRecord)
  | name :: line1 :: line2 :: lines =>
      if !Text.startswith line1 "1 ".toList || !Text.startswith line2 "2 ".toList then
        .error (.malformed name)
      else
        match recordsOf lines with
        | .error error => .error error
        | .ok records => .ok (⟨Text.strip name, line1, line2⟩ :: records)
  | _ => .ok []

/-- `_parse_records` -/
def parseRecords (body : Text) : Except CelestrakError (List TleRecord) :=
  let text := Text.strip body
  if text.isEmpty ∨ text = notFoundBody then
    .error (.tleNotFound (orElse text "empty response".toList))
  else
    let lines := ((Text.splitlines text).filter fun line => !(Text.strip line).isEmpty).map
      Text.rstrip
    if lines.length % 3 ≠ 0 then .error (.ungrouped lines.length) else recordsOf lines

/-- `fetch_group` -/
def fetchGroup (response : Response) : Except CelestrakError (List TleRecord) :=
  match get response with
  | .error error => .error error
  | .ok body => parseRecords body

end Apsis.Core.Celestrak
