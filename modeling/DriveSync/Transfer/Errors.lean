import DriveSync.Walk.Listing

/-!
# DriveSync.Transfer.Errors

What a request of the upload path fails with, told apart as far as the client tells failures apart:
which may be sent again (`retryable`), which say that DSM refused the session (`sessionCode`), and
which become the refusal of one path (`classifyPathRefusal`).
-/

namespace DriveSync
namespace Transfer

/-- A failed request, by what the HTTP client says of it. -/
structure HttpFailure where
  isConnect : Bool
  isTimeout : Bool
  isBody : Bool
  isRequest : Bool
  isBuilder : Bool
  isRedirect : Bool
  text : String
deriving DecidableEq, Repr

/-- Which bound ended an upload attempt. -/
inductive UploadBound where
  | stall
  | ceiling
  | response
deriving DecidableEq, Repr

structure StatusCode where
  code : Nat
  text : String
deriving DecidableEq, Repr

/-- `other` is every failure the upload path only passes on, by its text. -/
inductive Error where
  | unsafeRemotePath (path reason : String)
  | fileIo (path source : String)
  | http (operation : String) (source : HttpFailure)
  | httpBody (operation : String) (bound : Option UploadBound) (source : String)
  | httpStatus (operation : String) (status : StatusCode) (message : String)
  | invalidResponse (operation message : String)
  | api (api operation : String) (code : Int) (description : String) (details : List Int)
  | unsupportedApiVersion (api : String) (version min max : Nat)
  | remoteRefused (operation path : String) (code : Int) (description : String)
  | missingApi (api : String)
  | sourceChanged (path : String)
  | contentVerificationFailed (path : String)
  | cancelled
  | configuration (text : String)
  | message (text : String)
  | other (text : String)
deriving DecidableEq, Repr

namespace Error

def display : Error → String
  | unsafeRemotePath path reason => "unsafe remote path " ++ path.quote ++ ": " ++ reason
  | fileIo path source => "failed to read " ++ path.quote ++ ": " ++ source
  | http operation source => "HTTP request failed during " ++ operation ++ ": " ++ source.text
  | httpBody operation _ source => "HTTP transfer failed during " ++ operation ++ ": " ++ source
  | httpStatus operation status text =>
    "reverse proxy returned HTTP " ++ status.text ++ " during " ++ operation ++ ": " ++ text
  | invalidResponse operation text => "unexpected response during " ++ operation ++ ": " ++ text
  | api service operation code description _ =>
    "Synology API " ++ service ++ "." ++ operation ++ " failed with code " ++ toString code ++
      description
  | unsupportedApiVersion service version min max =>
    "required Synology API " ++ service ++ " version " ++ toString version ++
      " is not available (server offers " ++ toString min ++ "..=" ++ toString max ++ ")"
  | remoteRefused operation path code description =>
    "NAS refused " ++ operation ++ " of " ++ path.quote ++ " with code " ++ toString code ++
      description
  | missingApi service =>
    "required Synology API " ++ service ++ " was not reported by API discovery"
  | sourceChanged path => "source file changed while it was being synchronized: " ++ path.quote
  | contentVerificationFailed path => "remote content verification failed for " ++ path.quote
  | cancelled => "operation cancelled"
  | configuration text => text
  | message text => text
  | other text => text

def apiCode : Error → Option Int
  | api _ _ code _ _ => some code
  | remoteRefused _ _ code _ => some code
  | _ => none

/-- Whether a failed attempt may be sent again. -/
def retryable : Error → Bool
  | http _ source => source.isConnect || source.isTimeout || source.isBody ||
      (source.isRequest && !source.isBuilder && !source.isRedirect)
  | httpBody _ bound _ => bound != some .ceiling
  | httpStatus _ status _ => [408, 425, 429, 502, 503, 504].contains status.code
  | api _ _ code _ _ => decide (109 ≤ code ∧ code ≤ 111) || decide (117 ≤ code ∧ code ≤ 118) ||
      code == 402
  | _ => false

/-- The codes with which DSM refuses a session, 105 only where a probe says so too. -/
def sessionCode (error : Error) : Bool :=
  match error.apiCode with
  | some code => code == 105 || code == 106 || code == 107 || code == 119
  | none => false

def sessionErrorNaming (error : Error) (reason : String) : Error :=
  match error with
  | api service operation code description details =>
    .api service operation code (description ++ "; " ++ reason) details
  | _ => message (error.display ++ "; " ++ reason)

/-- The failure for an upload that left a torn overwrite on the NAS. -/
def tornOverwriteError (error : Error) (remoteFile : String) : Error :=
  message (error.display ++ "; the NAS copy of " ++ remoteFile.quote ++
    " now has this file's size and modification time but not its content, so a metadata " ++
    "comparison would call it unchanged; one more full upload was tried and did not repair it; " ++
    "run once with --compare content to repair it")

/-- Attach the remote path a failed mutation was for, keeping the error's kind and DSM code. -/
def namingRemotePath (error : Error) (remotePath : String) : Error :=
  let named (text : String) : String := text ++ " (path " ++ remotePath.quote ++ ")"
  match error with
  | api service operation code description details =>
    .api service operation code (named description) details
  | invalidResponse operation text => .invalidResponse operation (named text)
  | httpStatus operation status text => .httpStatus (named operation) status text
  | http operation source => .http (named operation) source
  | httpBody operation bound source => .httpBody (named operation) bound source
  | _ => error

def isPerPathRefusalCode (code : Int) : Bool :=
  [105, 400, 407, 414, 418, 1100, 1101, 1802, 1804].contains code

/-- A failure confined to the path becomes the refusal of that path; any other is named after it.
A folder that could not be created says why in its inner code only. -/
def classifyPathRefusal (describe : Descriptions) (error : Error) (remotePath : String) : Error :=
  match error with
  | api service operation code description details =>
    if code = 1100 then
      match details.head? with
      | some inner =>
        if [411, 415, 416].contains inner then
          namingRemotePath (.api service operation 1100
            (description ++ " (inner code " ++ toString inner ++ ")") details) remotePath
        else if [105, 407, 400, 412, 413, 414, 418].contains inner then
          .remoteRefused (service ++ "." ++ operation) remotePath inner
            ((((describe service inner).map (": " ++ ·)).getD ": folder creation failed") ++
              ", reported as folder creation failure 1100")
        else .remoteRefused (service ++ "." ++ operation) remotePath 1100 description
      | none => .remoteRefused (service ++ "." ++ operation) remotePath 1100 description
    else if isPerPathRefusalCode code then
      .remoteRefused (service ++ "." ++ operation) remotePath code description
    else namingRemotePath error remotePath
  | _ => namingRemotePath error remotePath

/-- A session refusal is never sent again as it is. -/
theorem retryable_of_sessionCode {error : Error} (h : error.sessionCode = true) :
    error.retryable = false := by
  cases error with
  | api service operation code description details =>
    simp only [sessionCode, apiCode, Bool.or_eq_true, beq_iff_eq] at h
    rcases h with ((rfl | rfl) | rfl) | rfl <;> rfl
  | remoteRefused operation path code description => rfl
  | _ => simp [sessionCode, apiCode] at h

end Error

/-! ## Errors of the entry a probe asks for -/

/-- An error of the checks every DSM entry goes through. -/
def ofApiError : ApiError → Error
  | .api service operation code description => .api service operation code description []
  | .invalidResponse operation text => .invalidResponse operation text
  | .unsafeRemotePath path reason => .unsafeRemotePath (String.ofList path) reason
  | .remoteEscape path => .other
      ("remote path returned by File Station escaped the configured destination: " ++
        quoteText path)
  | .remoteMountRoot path mountType => .other ("remote destination " ++ quoteText path ++
      " is a File Station mount point (" ++ mountType.quote ++
      "); mounted filesystems are never synchronized")
  | .remoteLinkInScope path cause => .other ("remote path " ++ quoteText path ++
      " on the requested scope is a NAS link (" ++ cause ++ "); a scoped run never writes or " ++
      "deletes through a link: run without --scope, or replace the link with a folder")
  | .message text => .message text
  | .cancelled => .cancelled
  | .transport text => .other text

end Transfer
end DriveSync
