import Mathlib.Algebra.Group.Nat.Defs
import Mathlib.Data.List.Infix

/-!
# Errors

`error.rs`: the nine kinds of errors, and the classification of what the SDK reports.
-/

namespace S3o

inductive ErrorKind
  | network | timeout | auth | notFound | throttled | serverError | clientError | config | other
  deriving DecidableEq

/-- `Display for ErrorKind`: the value of the `kind` label. -/
def ErrorKind.display : ErrorKind → String
  | .network => "network"
  | .timeout => "timeout"
  | .auth => "auth"
  | .notFound => "not_found"
  | .throttled => "throttled"
  | .serverError => "server_error"
  | .clientError => "client_error"
  | .config => "config"
  | .other => "other"

inductive S3Error
  | backend (kind : ErrorKind) (message : String)
  | config (message : String)
  deriving DecidableEq

abbrev S3Result (α : Type) := Except S3Error α

/-- `S3Error::error_kind`. -/
def S3Error.errorKind : S3Error → ErrorKind
  | .backend kind _ => kind
  | .config _ => .config

/-- What `classify` can tell of an `SdkError`. The text of a service error is the `Debug` form of
the modelled error, the other texts are the `Display` form of the whole. -/
inductive SdkError
  | serviceError (status : ℕ) (err : String)
  | timeoutError (text : String)
  | dispatchFailure (isTimeout : Bool) (text : String)
  | other (text : String)
  deriving DecidableEq

/-- `to_lowercase().contains("slowdown")`. No character outside ASCII lowers to a letter of the
word, so lowering the ASCII letters is enough. -/
def mentionsSlowdown (text : String) : Bool :=
  decide ("slowdown".toList <:+: text.toList.map Char.toLower)

/-- `classify`. -/
def classify : SdkError → S3Error
  | .serviceError status err =>
    let kind :=
      if status = 401 ∨ status = 403 then ErrorKind.auth
      else if status = 404 then .notFound
      else if status = 429 then .throttled
      else if status = 503 ∧ mentionsSlowdown err then .throttled
      else if 500 ≤ status ∧ status ≤ 599 then .serverError
      else if 400 ≤ status ∧ status ≤ 499 then .clientError
      else .other
    .backend kind err
  | .timeoutError text => .backend .timeout text
  | .dispatchFailure isTimeout text => .backend (if isTimeout then .timeout else .network) text
  | .other text => .backend .other text

end S3o
