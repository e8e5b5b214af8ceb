import JsonRpcBridge.Bytes

/-!
# Contracts

`lidl_contract.h`: one `lidl()` answer as plain data. The reader behind it is the logos-lidl
library, which is not part of the repository; it is the parameter `ContractReader`, an arbitrary
function of the text and the module name it must declare.
-/

namespace JsonRpcBridge

structure ContractParam where
  name : Bytes
  optional : Bool := false

structure ContractMethod where
  name : Bytes
  derived : Bool := false
  params : List ContractParam := []

structure ContractEvent where
  name : Bytes
  params : List ContractParam := []

structure ContractResult where
  ok : Bool := false
  error : Bytes := []
  errorLine : Int := 0
  errorCol : Int := 0
  warnings : List Bytes := []
  lint : List Bytes := []
  moduleName : Bytes := []
  contractVersion : Bytes := []
  astJson : Bytes := []
  methods : List ContractMethod := []
  events : List ContractEvent := []

/-- `readContract` and `lidlReaderRev`. -/
structure ContractReader where
  readContract : Bytes → Bytes → ContractResult
  lidlReaderRev : Bytes

/-- A reader that accepts no contract. -/
def ContractReader.refusing : ContractReader where
  readContract _ _ := { error := str "unreadable" }
  lidlReaderRev := str "0"

end JsonRpcBridge
