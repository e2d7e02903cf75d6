namespace LedgerWatch

inductive Fault
  | invalidInput (text : String)
  | invalidParameter (name value reason : String)
  | configuration (text : String)
  | io (text : String)
  | serialization (text : String)
  | shape (expected actual : String)
  | computation (text : String)
  | detectorFailed (detector reason : String)
  deriving DecidableEq, Repr

def Fault.message : Fault → String
  | .invalidInput text => "Invalid input: " ++ text
  | .invalidParameter name value reason =>
    "Invalid parameter: " ++ name ++ " = " ++ value ++ ", " ++ reason
  | .configuration text => "Configuration error: " ++ text
  | .io text => "IO error: " ++ text
  | .serialization text => "Serialization error: " ++ text
  | .shape expected actual => "Invalid shape: expected " ++ expected ++ ", got " ++ actual
  | .computation text => "Computation error: " ++ text
  | .detectorFailed detector reason => "Detector " ++ detector ++ " failed: " ++ reason

end LedgerWatch
