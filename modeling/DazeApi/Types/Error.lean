import DazeApi.Lib.Text

/-!
# Errors

`types/error.go`: the error value that the relay passes around.  The code is a
string, since an upstream error brings its own.  The wrapped error is its text.
The original upstream error, which only the final rendering reads, is left out.
-/

namespace DazeApi.Types

/-- `types.NewAPIError`. -/
structure NewAPIError where
  err : String
  skipRetry : Bool
  recordErrorLog : Option Bool
  errorCode : String
  statusCode : Int
deriving DecidableEq, Repr

/-- The options of the constructors. -/
inductive ErrOption where
  | skipRetry
  | noRecordErrorLog
deriving DecidableEq, Repr

def NewAPIError.apply (e : NewAPIError) : ErrOption → NewAPIError
  | .skipRetry => { e with skipRetry := true }
  | .noRecordErrorLog => { e with recordErrorLog := some false }

/-- `types.NewErrorWithStatusCode`. -/
def newErrorWithStatusCode (err errorCode : String) (statusCode : Int) (ops : List ErrOption) :
    NewAPIError :=
  ops.foldl NewAPIError.apply
    { err := err, skipRetry := false, recordErrorLog := none, errorCode := errorCode,
      statusCode := statusCode }

/-- `types.NewError` of an error that is not itself a `NewAPIError`. -/
def newError (err errorCode : String) (ops : List ErrOption) : NewAPIError :=
  newErrorWithStatusCode err errorCode 500 ops

/-- `types.IsChannelError`. -/
def isChannelError (e : NewAPIError) : Bool := Text.hasPrefix e.errorCode "channel:"

/-- `types.IsSkipRetryError`. -/
def isSkipRetryError (e : NewAPIError) : Bool := e.skipRetry

end DazeApi.Types
