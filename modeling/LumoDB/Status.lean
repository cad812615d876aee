namespace LumoDB

/-- The codes a call can fail with. `kOk` is the normal return of a program. -/
inductive StatusCode where
  | notFound
  | invalidArgument
  | ioError
  | corruption
  | notOpen
  deriving DecidableEq, Repr

/-- A status that is not Ok. -/
structure Status where
  code : StatusCode
  message : String
  deriving DecidableEq, Repr

namespace Status

def notFound (message : String) : Status := ⟨.notFound, message⟩

def invalidArgument (message : String) : Status := ⟨.invalidArgument, message⟩

def ioError (message : String) : Status := ⟨.ioError, message⟩

def corruption (message : String) : Status := ⟨.corruption, message⟩

def notOpen (message : String) : Status := ⟨.notOpen, message⟩

end Status

end LumoDB
